import Mathlib.Data.List.Infix
import Mathlib.Tactic.Common

/-! # Searching a text for a regular expression

A pattern is matched at a place: the text still to come, and whether a word character stands
before it. Of a match only its existence and its end matter, so all ways are tried. -/

namespace Regex

/-- Patterns over character classes; `boundary` is `\b`. -/
inductive Pattern where
  | empty
  | char (p : Char → Bool)
  | many (p : Char → Bool)
  | boundary
  | seq (a b : Pattern)
  | alt (a b : Pattern)

/-- Which characters make a word, seen from the place after them and from the place before. -/
structure Words where
  before : Char → Bool
  after : Char → Bool

/-- Every character of the text in turn, each of its class in the list. -/
def Pattern.each (classes : List (Char → Bool)) : Pattern :=
  classes.foldr (fun p r => .seq (.char p) r) .empty

/-- `r?`. -/
def Pattern.optional (r : Pattern) : Pattern :=
  .alt r .empty

/-- `[...]{n,}`. -/
def Pattern.atLeast (n : ℕ) (p : Char → Bool) : Pattern :=
  .seq (.each (List.replicate n p)) (.many p)

variable (w : Words)

/-- Whether the text goes on with a word character. -/
def Words.ahead : List Char → Bool
  | [] => false
  | c :: _ => w.after c

/-- A place in a text: whether a word character stands before it, and what comes after it. -/
abbrev Place := Bool × List Char

/-- The ends of a run of characters of a class. -/
def runMany (p : Char → Bool) : Bool → List Char → List Place
  | b, [] => [(b, [])]
  | b, c :: cs => (b, c :: cs) :: if p c then runMany p (w.before c) cs else []

/-- Where a match that starts at the place may end. -/
def run : Pattern → Place → List Place
  | .empty, x => [x]
  | .char p, (_, c :: cs) => if p c then [(w.before c, cs)] else []
  | .char _, (_, []) => []
  | .many p, (b, l) => runMany w p b l
  | .boundary, (b, l) => if b = w.ahead l then [] else [(b, l)]
  | .seq r s, x => (run r x).flatMap (run s)
  | .alt r s, x => run r x ++ run s x

/-- `search`: a match starts at the place or later. -/
def found (r : Pattern) : Bool → List Char → Bool
  | b, [] => !(run w r (b, [])).isEmpty
  | b, c :: cs => !(run w r (b, c :: cs)).isEmpty || found r (w.before c) cs

variable {w} {r s : Pattern} {p : Char → Bool} {b : Bool} {c : Char} {l cs rest : List Char}

theorem run_seq_eq_nil {x : Place} (h : run w r x = []) : run w (.seq r s) x = [] := by
  simp [run, h]

theorem run_alt_eq_nil {x : Place} : run w (.alt r s) x = [] ↔ run w r x = [] ∧ run w s x = [] := by
  simp [run]

@[simp] theorem run_boundary_of_eq (h : b = w.ahead l) : run w .boundary (b, l) = [] := by
  simp [run, h]

@[simp] theorem run_char_of_not (h : p c = false) : run w (.char p) (b, c :: cs) = [] := by
  simp [run, h]

/-! ## What a match consumes -/

theorem runMany_suffix {x : Place} (h : x ∈ runMany w p b l) : x.2 <:+ l := by
  induction l generalizing b with
  | nil =>
      rw [runMany, List.mem_singleton] at h
      rw [h]
  | cons c cs ih =>
      rw [runMany, List.mem_cons] at h
      rcases h with rfl | h
      · exact List.suffix_refl _
      · split at h
        · exact (ih h).trans (List.suffix_cons c cs)
        · cases h

theorem run_suffix {x y : Place} (h : y ∈ run w r x) : y.2 <:+ x.2 := by
  induction r generalizing x y with
  | empty =>
      rw [run, List.mem_singleton] at h
      rw [h]
  | char p =>
      obtain ⟨b, l⟩ := x
      cases l with
      | nil => cases h
      | cons c cs =>
          rw [run] at h
          split at h
          · rw [List.mem_singleton.mp h]
            exact List.suffix_cons c cs
          · cases h
  | many p => exact runMany_suffix h
  | boundary =>
      rw [run] at h
      split at h
      · cases h
      · rw [List.mem_singleton.mp h]
  | seq r s ihr ihs =>
      obtain ⟨z, hz, hy⟩ := List.mem_flatMap.mp h
      exact (ihs hy).trans (ihr hz)
  | alt r s ihr ihs =>
      rcases List.mem_append.mp h with h | h
      · exact ihr h
      · exact ihs h

/-- Every match of the pattern consumes a character that `d` excludes. -/
def Pattern.Needs (d : Char → Prop) : Pattern → Prop
  | .char p => ∀ c, d c → p c = false
  | .seq r s => r.Needs d ∨ s.Needs d
  | .alt r s => r.Needs d ∧ s.Needs d
  | _ => False

/-- A text of excluded characters has no match. -/
theorem Pattern.Needs.run_eq_nil {d : Char → Prop} (h : r.Needs d) {x : Place}
    (hx : ∀ c ∈ x.2, d c) : run w r x = [] := by
  induction r generalizing x with
  | empty => exact h.elim
  | many p => exact h.elim
  | boundary => exact h.elim
  | char p =>
      obtain ⟨b, l⟩ := x
      cases l with
      | nil => rfl
      | cons c cs => exact run_char_of_not (h c (hx c (List.mem_cons_self)))
  | seq r s ihr ihs =>
      rcases h with h | h
      · exact run_seq_eq_nil (ihr h hx)
      · rw [run, List.flatMap_eq_nil_iff]
        intro y hy
        exact ihs h fun c hc => hx c ((run_suffix hy).subset hc)
  | alt r s ihr ihs => exact run_alt_eq_nil.mpr ⟨ihr h.1 hx, ihs h.2 hx⟩

theorem Pattern.Needs.found_eq_false {d : Char → Prop} (h : r.Needs d) (hl : ∀ c ∈ l, d c) :
    found w r b l = false := by
  induction l generalizing b with
  | nil => simp [found, h.run_eq_nil (x := (b, [])) (by simp)]
  | cons c cs ih =>
      rw [found, h.run_eq_nil (x := (b, c :: cs)) hl,
        ih fun d hd => hl d (List.mem_cons_of_mem c hd)]
      rfl

theorem needs_each {d : Char → Prop} {classes : List (Char → Bool)} (hp : p ∈ classes)
    (h : ∀ c, d c → p c = false) : (Pattern.each classes).Needs d := by
  induction classes with
  | nil => cases hp
  | cons q qs ih =>
      rcases List.mem_cons.mp hp with rfl | hp
      · exact .inl h
      · exact .inr (ih hp)

/-- Nothing starts here. -/
theorem found_skip (h : run w r (b, c :: cs) = []) : found w r b (c :: cs) = found w r (w.before c) cs := by
  rw [found, h]
  rfl

/-! ## Separators -/

/-- No match contains the character. -/
def Pattern.Rejects (c : Char) : Pattern → Prop
  | .char p => p c = false
  | .many p => p c = false
  | .seq r s => r.Rejects c ∧ s.Rejects c
  | .alt r s => r.Rejects c ∧ s.Rejects c
  | _ => True

@[simp] theorem rejects_empty : Pattern.empty.Rejects c ↔ True := Iff.rfl
@[simp] theorem rejects_boundary : Pattern.boundary.Rejects c ↔ True := Iff.rfl
@[simp] theorem rejects_char : (Pattern.char p).Rejects c ↔ p c = false := Iff.rfl
@[simp] theorem rejects_many : (Pattern.many p).Rejects c ↔ p c = false := Iff.rfl
@[simp] theorem rejects_seq : (Pattern.seq r s).Rejects c ↔ r.Rejects c ∧ s.Rejects c := Iff.rfl
@[simp] theorem rejects_alt : (Pattern.alt r s).Rejects c ↔ r.Rejects c ∧ s.Rejects c := Iff.rfl

theorem rejects_each {classes : List (Char → Bool)} :
    (Pattern.each classes).Rejects c ↔ ∀ p ∈ classes, p c = false := by
  induction classes with
  | nil => simp [Pattern.each]
  | cons p ps ih =>
      rw [List.forall_mem_cons, ← ih]
      rfl

/-- A place before more text. -/
def Place.followed (x : Place) (rest : List Char) : Place :=
  (x.1, x.2 ++ rest)

theorem runMany_followed (h : p c = false) : runMany w p b (l ++ c :: rest) =
    (runMany w p b l).map fun x => x.followed (c :: rest) := by
  induction l generalizing b with
  | nil => simp [runMany, h, Place.followed]
  | cons d ds ih =>
      by_cases hd : p d = true
      · simp [runMany, hd, ih, Place.followed]
      · simp [runMany, hd, Place.followed]

/-- Before a separator the matches are those at the end of the text. -/
theorem run_followed (hr : r.Rejects c) (hc : w.after c = false) (x : Place) :
    run w r (x.followed (c :: rest)) = (run w r x).map fun y => y.followed (c :: rest) := by
  induction r generalizing x with
  | empty => rfl
  | char p =>
      obtain ⟨b, l⟩ := x
      cases l with
      | nil => exact run_char_of_not hr
      | cons d ds => by_cases hd : p d = true <;> simp [run, hd, Place.followed]
  | many p => exact runMany_followed hr
  | boundary =>
      obtain ⟨b, l⟩ := x
      have hahead : w.ahead (l ++ c :: rest) = w.ahead l := by
        cases l with
        | nil => exact hc
        | cons d ds => rfl
      by_cases hb : b = w.ahead l <;> simp [run, Place.followed, hahead, hb]
  | seq r s ihr ihs =>
      rw [run, ihr hr.1 x, List.flatMap_map, run, List.map_flatMap]
      exact List.flatMap_congr fun y _ => ihs hr.2 y
  | alt r s ihr ihs => rw [run, ihr hr.1 x, ihs hr.2 x, run, List.map_append]

/-- A separator splits the search. -/
theorem found_split (hr : r.Rejects c) (hc : w.after c = false) :
    found w r b (l ++ c :: rest) = (found w r b l || found w r (w.before c) rest) := by
  induction l generalizing b with
  | nil =>
      have heq : run w r (b, c :: rest) = (run w r (b, [])).map fun y => y.followed (c :: rest) :=
        run_followed hr hc (b, [])
      simp [found, heq]
  | cons d ds ih =>
      have heq : run w r (b, d :: (ds ++ c :: rest)) =
          (run w r (b, d :: ds)).map fun y => y.followed (c :: rest) :=
        run_followed hr hc (b, d :: ds)
      simp [found, heq, ih, Bool.or_assoc]

/-! ## Encoded texts -/

/-- The pattern on kept characters only. -/
def Pattern.restrict (kept : Char → Bool) : Pattern → Pattern
  | .char p => .char fun c => kept c && p c
  | .many p => .many fun c => kept c && p c
  | .seq r s => .seq (r.restrict kept) (s.restrict kept)
  | .alt r s => .alt (r.restrict kept) (s.restrict kept)
  | r => r

/-- A text is written with some characters kept and all others behind an escape mark. -/
structure Escapes (mark : Char) where
  kept : Char → Bool
  tail : Char → List Char

variable {mark : Char}

/-- How a character is written. -/
def Escapes.write (e : Escapes mark) (c : Char) : List Char :=
  if e.kept c then [c] else mark :: e.tail c

def Escapes.encode (e : Escapes mark) (l : List Char) : List Char :=
  l.flatMap e.write

/-- What the characters of the decoded text look like in the encoded one: an escape starts with
the mark, and `last` tells whether it ends with a word character. -/
def Escapes.seen (e : Escapes mark) (w : Words) (last : Char → Bool) : Words where
  before c := if e.kept c then w.before c else last c
  after c := e.kept c && w.after c

variable {e : Escapes mark}

theorem Escapes.encode_cons_kept (h : e.kept c = true) : e.encode (c :: cs) = c :: e.encode cs := by
  simp [encode, write, h]

theorem Escapes.encode_cons_escaped (h : e.kept c = false) :
    e.encode (c :: cs) = mark :: (e.tail c ++ e.encode cs) := by
  simp [encode, write, h]

/-- A place of the decoded text, in the encoded one. -/
def Escapes.place (e : Escapes mark) (x : Place) : Place :=
  (x.1, e.encode x.2)

theorem runMany_encoded (last : Char → Bool) (h : p mark = false) : runMany w p b (e.encode l) =
    (runMany (e.seen w last) (fun c => e.kept c && p c) b l).map e.place := by
  induction l generalizing b with
  | nil => rfl
  | cons c cs ih =>
      by_cases hc : e.kept c = true
      · rw [Escapes.encode_cons_kept hc, runMany, runMany, List.map_cons, hc, Bool.true_and]
        by_cases hp : p c = true
        · simp [hp, ih, Escapes.place, Escapes.encode_cons_kept hc, Escapes.seen, hc]
        · simp [hp, Escapes.place, Escapes.encode_cons_kept hc]
      · rw [Bool.not_eq_true] at hc
        simp [Escapes.encode_cons_escaped hc, runMany, h, hc, Escapes.place]

/-- The matches in the encoded text are those of kept characters in the decoded one. -/
theorem run_encoded (last : Char → Bool) (hr : r.Rejects mark) (hmark : w.after mark = false)
    {x : Place} :
    run w r (e.place x) = (run (e.seen w last) (r.restrict e.kept) x).map e.place := by
  induction r generalizing x with
  | empty => rfl
  | char p =>
      obtain ⟨b, l⟩ := x
      cases l with
      | nil => rfl
      | cons c cs =>
          by_cases hc : e.kept c = true
          · by_cases hp : p c = true <;>
              simp [Escapes.place, Escapes.encode_cons_kept hc, run, Pattern.restrict, hc, hp,
                Escapes.seen]
          · rw [Bool.not_eq_true] at hc
            have hp : p mark = false := hr
            simp [Escapes.place, Escapes.encode_cons_escaped hc, Pattern.restrict, hc, hp]
  | many p => exact runMany_encoded last hr
  | boundary =>
      obtain ⟨b, l⟩ := x
      have hahead : w.ahead (e.encode l) = (e.seen w last).ahead l := by
        cases l with
        | nil => rfl
        | cons c cs =>
            by_cases hc : e.kept c = true
            · simp [Escapes.encode_cons_kept hc, Words.ahead, Escapes.seen, hc]
            · rw [Bool.not_eq_true] at hc
              simp [Escapes.encode_cons_escaped hc, Words.ahead, Escapes.seen, hc, hmark]
      by_cases hb : b = (e.seen w last).ahead l <;>
        simp [run, Escapes.place, Pattern.restrict, hahead, hb]
  | seq r s ihr ihs =>
      rw [run, ihr hr.1, List.flatMap_map, Pattern.restrict, run, List.map_flatMap]
      exact List.flatMap_congr fun y _ => ihs hr.2
  | alt r s ihr ihs => rw [run, ihr hr.1, ihs hr.2, Pattern.restrict, run, List.map_append]

theorem restrict_each {kept : Char → Bool} {classes : List (Char → Bool)}
    (h : ∀ p ∈ classes, (fun c => kept c && p c) = p) :
    (Pattern.each classes).restrict kept = .each classes := by
  induction classes with
  | nil => rfl
  | cons p ps ih =>
      rw [List.forall_mem_cons] at h
      have hrest : (Pattern.each ps).restrict kept = .each ps := ih h.2
      change Pattern.seq (.char fun c => kept c && p c) ((Pattern.each ps).restrict kept) = _
      rw [h.1, hrest]
      rfl

/-- If no match starts inside an escape, the search of the encoded text is one of the decoded
text in which escaped characters take no part. -/
theorem found_encoded (last : Char → Bool) (hr : r.Rejects mark) (hmark : w.after mark = false)
    (hskip : ∀ c rest, e.kept c = false →
      found w r (w.before mark) (e.tail c ++ rest) = found w r (last c) rest) :
    found w r b (e.encode l) = found (e.seen w last) (r.restrict e.kept) b l := by
  have hrun (x : Place) : (run w r (e.place x)).isEmpty =
      (run (e.seen w last) (r.restrict e.kept) x).isEmpty := by
    rw [run_encoded last hr hmark, List.isEmpty_map]
  induction l generalizing b with
  | nil =>
      have h := hrun (b, [])
      rw [Escapes.place] at h
      simp only [Escapes.encode, List.flatMap_nil] at h ⊢
      rw [found, found, h]
  | cons c cs ih =>
      have h := hrun (b, c :: cs)
      rw [Escapes.place] at h
      by_cases hc : e.kept c = true
      · simp only [Escapes.encode_cons_kept hc] at h ⊢
        rw [found, found, h, ih]
        simp [Escapes.seen, hc]
      · rw [Bool.not_eq_true] at hc
        simp only [Escapes.encode_cons_escaped hc] at h ⊢
        rw [found, found, h, hskip c _ hc, ih]
        simp [Escapes.seen, hc]

end Regex
