import Dante.Library.Cleaning
import Mathlib.Tactic.Ring

/-! # UUIDs and their texts

The canonical text of a UUID, and a reader that takes more texts than the canonical ones. -/

/-- A number of 128 bits. -/
structure Uuid where
  int : ℕ
  bounded : int < 16 ^ 32
  deriving DecidableEq

namespace Uuid

open Cleaning

/-! ## Digits -/

def hexDigit (n : ℕ) : Char :=
  if n < 10 then Char.ofNat ('0'.toNat + n) else Char.ofNat ('a'.toNat + (n - 10))

/-- The digit, in either case. -/
def hexValue (c : Char) : Option ℕ :=
  if '0' ≤ c ∧ c ≤ '9' then some (c.toNat - '0'.toNat)
  else if 'a' ≤ c ∧ c ≤ 'f' then some (c.toNat - 'a'.toNat + 10)
  else if 'A' ≤ c ∧ c ≤ 'F' then some (c.toNat - 'A'.toNat + 10)
  else none

/-- The last `n` hexadecimal digits of a number. -/
def hexChars : ℕ → ℕ → List Char
  | 0, _ => []
  | n + 1, k => hexChars n (k / 16) ++ [hexDigit (k % 16)]

/-- The number that some digits spell, one underscore between two digits allowed; `after` tells
that a digit comes right before. -/
def digitRun (acc : ℕ) (after : Bool) : List Char → Option ℕ
  | [] => if after then some acc else none
  | c :: cs =>
      if c = '_' then if after then digitRun acc false cs else none
      else
        match hexValue c with
        | some d => digitRun (16 * acc + d) true cs
        | none => none

/-- `int(text, 16)` of an ASCII text that is not negative. -/
def readInt (space : Char → Bool) (text : List Char) : Option ℕ :=
  let text := strip space text
  let text := if text.head? = some '+' then text.tail else text
  match text with
  | '0' :: x :: rest =>
      if x = 'x' ∨ x = 'X' then digitRun 0 false (if rest.head? = some '_' then rest.tail else rest)
      else digitRun 0 false text
  | _ => digitRun 0 false text

/-! ## Texts -/

/-- `UUID.__str__`. -/
def text (u : Uuid) : List Char :=
  let hex := hexChars 32 u.int
  hex.take 8 ++ '-' :: ((hex.drop 8).take 4 ++ '-' :: ((hex.drop 12).take 4 ++
    '-' :: ((hex.drop 16).take 4 ++ '-' :: hex.drop 20)))

/-- `text.replace(pattern, '')`; `skip` characters are still part of the last pattern. -/
def removeAll (pattern : List Char) (skip : ℕ) : List Char → List Char
  | [] => []
  | c :: cs =>
      match skip with
      | k + 1 => removeAll pattern k cs
      | 0 =>
          if pattern.isPrefixOf (c :: cs) then removeAll pattern (pattern.length - 1) cs
          else c :: removeAll pattern 0 cs

/-- `UUID(hex)`; `none` is a `ValueError`. -/
def ofText (space : Char → Bool) (hex : List Char) : Option Uuid :=
  let hex := removeAll "uuid:".toList 0 (removeAll "urn:".toList 0 hex)
  let hex := (strip (fun c => c = '\x7b' || c = '\x7d') hex).filter (· ≠ '-')
  if hex.length ≠ 32 then none
  else
    match readInt space hex with
    | some int => if h : int < 16 ^ 32 then some ⟨int, h⟩ else none
    | none => none

/-- `UUID.version`: only the variant of RFC 4122 has one. -/
def version (u : Uuid) : Option ℕ :=
  if u.int / 2 ^ 62 % 4 = 2 then some (u.int / 2 ^ 76 % 16) else none

/-! ## Reading digits back -/

theorem hexValue_hexDigit : ∀ n < 16, hexValue (hexDigit n) = some n := by
  decide

/-- The digits that are written. -/
def isHexDigit (c : Char) : Bool :=
  c ∈ ['0', '1', '2', '3', '4', '5', '6', '7', '8', '9', 'a', 'b', 'c', 'd', 'e', 'f']

theorem isHexDigit_hexDigit : ∀ n < 16, isHexDigit (hexDigit n) = true := by
  decide

variable {n k acc : ℕ} {c : Char} {cs : List Char} {u v : Uuid} {space : Char → Bool}

@[simp] theorem length_hexChars (n k : ℕ) : (hexChars n k).length = n := by
  induction n generalizing k with
  | zero => rfl
  | succ n ih => rw [hexChars, List.length_append, ih, List.length_singleton]

theorem mem_hexChars (h : c ∈ hexChars n k) : isHexDigit c = true := by
  induction n generalizing k with
  | zero => cases h
  | succ n ih =>
      rcases List.mem_append.mp h with h | h
      · exact ih h
      · rw [List.mem_singleton.mp h]
        exact isHexDigit_hexDigit _ (Nat.mod_lt _ (by decide))

theorem digitRun_hexDigit {after : Bool} {d : ℕ} (hd : d < 16) :
    digitRun acc after (hexDigit d :: cs) = digitRun (16 * acc + d) true cs := by
  have hne : ∀ d < 16, hexDigit d ≠ '_' := by decide
  rw [digitRun, if_neg (hne d hd), hexValue_hexDigit d hd]

/-- Written digits are read as the number that they were written of. -/
theorem digitRun_hexChars {after : Bool} : digitRun acc after (hexChars (n + 1) k ++ cs) =
    digitRun (acc * 16 ^ (n + 1) + k % 16 ^ (n + 1)) true cs := by
  induction n generalizing k cs with
  | zero =>
      rw [hexChars, hexChars, List.nil_append, List.singleton_append,
        digitRun_hexDigit (Nat.mod_lt _ (by decide))]
      ring_nf
  | succ n ih =>
      rw [hexChars, List.append_assoc, ih, List.singleton_append,
        digitRun_hexDigit (Nat.mod_lt _ (by decide))]
      have hmod : k % 16 ^ (n + 2) = k % 16 + 16 * (k / 16 % 16 ^ (n + 1)) := by
        rw [pow_succ', Nat.mod_mul]
      rw [hmod]
      ring_nf

/-! ## Reading texts back -/

theorem text_ne_nil (u : Uuid) : u.text ≠ [] := by
  simp [text]

theorem mem_text (h : c ∈ u.text) : isHexDigit c = true ∨ c = '-' := by
  have hdigits (l : List Char) (hl : l.Sublist (hexChars 32 u.int)) (hc : c ∈ l) :
      isHexDigit c = true := mem_hexChars (hl.subset hc)
  simp only [text, List.mem_append, List.mem_cons] at h
  rcases h with h | rfl | h | rfl | h | rfl | h | rfl | h
  · exact .inl (hdigits _ (List.take_sublist _ _) h)
  · exact .inr rfl
  · exact .inl (hdigits _ ((List.take_sublist _ _).trans (List.drop_sublist _ _)) h)
  · exact .inr rfl
  · exact .inl (hdigits _ ((List.take_sublist _ _).trans (List.drop_sublist _ _)) h)
  · exact .inr rfl
  · exact .inl (hdigits _ ((List.take_sublist _ _).trans (List.drop_sublist _ _)) h)
  · exact .inr rfl
  · exact .inl (hdigits _ (List.drop_sublist _ _) h)

/-- The characters of a canonical text. -/
def isTextChar (c : Char) : Bool :=
  c ∈ ['0', '1', '2', '3', '4', '5', '6', '7', '8', '9', 'a', 'b', 'c', 'd', 'e', 'f', '-']

theorem isTextChar_of_mem (h : c ∈ u.text) : isTextChar c = true := by
  rcases mem_text h with hc | rfl
  · simp only [isHexDigit, List.mem_cons, List.not_mem_nil, or_false, decide_eq_true_eq] at hc
    rcases hc with rfl | rfl | rfl | rfl | rfl | rfl | rfl | rfl | rfl | rfl | rfl | rfl | rfl | rfl |
      rfl | rfl <;> rfl
  · rfl

/-- What holds of those characters holds of each of them. -/
theorem of_isTextChar (P : Char → Prop)
    (hP : ∀ c ∈ ['0', '1', '2', '3', '4', '5', '6', '7', '8', '9', 'a', 'b', 'c', 'd', 'e', 'f', '-'], P c)
    (h : isTextChar c = true) : P c :=
  hP c (by simpa [isTextChar] using h)

theorem removeAll_of_absent {pattern : List Char} {first : Char} (hfirst : pattern.head? = some first)
    (habsent : first ∉ cs) : removeAll pattern 0 cs = cs := by
  induction cs with
  | nil => rfl
  | cons c cs ih =>
      rw [List.mem_cons, not_or] at habsent
      cases pattern with
      | nil => cases hfirst
      | cons p pattern =>
          rw [List.head?_cons, Option.some.injEq] at hfirst
          subst hfirst
          have hstart : (p :: pattern).isPrefixOf (c :: cs) = false := by
            simp [List.isPrefixOf, habsent.1]
          rw [removeAll, hstart, ih habsent.2]
          rfl

theorem strip_of_absent {p : Char → Bool} (h : ∀ c ∈ cs, p c = false) : strip p cs = cs :=
  strip_eq_self_iff.mpr ⟨fun hne => h _ (List.head_mem hne), fun hne => h _ (List.getLast_mem hne)⟩

theorem filter_text (u : Uuid) : u.text.filter (· ≠ '-') = hexChars 32 u.int := by
  have hdigits (l : List Char) (hl : l.Sublist (hexChars 32 u.int)) : l.filter (· ≠ '-') = l := by
    refine List.filter_eq_self.mpr fun c hc => ?_
    have hdigit := mem_hexChars (hl.subset hc)
    rw [decide_eq_true_eq]
    rintro rfl
    cases hdigit
  have hmiddle (n k : ℕ) : (((hexChars 32 u.int).drop n).take k).filter (· ≠ '-') =
      ((hexChars 32 u.int).drop n).take k :=
    hdigits _ ((List.take_sublist _ _).trans (List.drop_sublist _ _))
  have hdash (l : List Char) : ('-' :: l).filter (· ≠ '-') = l.filter (· ≠ '-') := rfl
  rw [text]
  simp only [List.filter_append, hdash, hmiddle, hdigits _ (List.take_sublist _ _),
    hdigits _ (List.drop_sublist _ _)]
  have hjoin (n k : ℕ) : ((hexChars 32 u.int).drop n).take k ++ (hexChars 32 u.int).drop (n + k) =
      (hexChars 32 u.int).drop n := by
    rw [← List.drop_drop, List.take_append_drop]
  rw [hjoin 16 4, hjoin 12 4, hjoin 8 4, List.take_append_drop]

theorem readInt_hexChars (hspace : ∀ c, isTextChar c = true → space c = false) (n k : ℕ) :
    readInt space (hexChars (n + 1) k) = some (k % 16 ^ (n + 1)) := by
  have hchar {c : Char} (hc : c ∈ hexChars (n + 1) k) : isHexDigit c = true := mem_hexChars hc
  have hstrip : strip space (hexChars (n + 1) k) = hexChars (n + 1) k := by
    refine strip_of_absent fun c hc => hspace c ?_
    have hdigit := hchar hc
    simp only [isHexDigit, isTextChar, List.mem_cons, List.not_mem_nil, or_false,
      decide_eq_true_eq] at hdigit ⊢
    tauto
  have hrun : digitRun 0 false (hexChars (n + 1) k) = some (k % 16 ^ (n + 1)) := by
    rw [← List.append_nil (hexChars (n + 1) k), digitRun_hexChars, digitRun, if_pos rfl, Nat.zero_mul,
      Nat.zero_add]
  unfold readInt
  rw [hstrip]
  generalize hexChars (n + 1) k = l at hchar hrun ⊢
  have hplus : (if l.head? = some '+' then l.tail else l) = l := by
    refine if_neg fun hhead => ?_
    have hdigit := hchar (List.mem_of_mem_head? hhead)
    cases hdigit
  simp only [hplus]
  split
  next x rest =>
    have hdigit : isHexDigit x = true := hchar (by simp)
    rw [if_neg]
    · exact hrun
    · rintro (rfl | rfl) <;> cases hdigit
  next => exact hrun

/-- The canonical text is read as the UUID. -/
theorem ofText_text (hspace : ∀ c, isTextChar c = true → space c = false) (u : Uuid) :
    ofText space u.text = some u := by
  have habsent (c : Char) (hc : isTextChar c = false) : c ∉ u.text := by
    intro hmem
    rw [isTextChar_of_mem hmem] at hc
    cases hc
  have hurn : removeAll "urn:".toList 0 u.text = u.text :=
    removeAll_of_absent rfl (habsent 'u' rfl)
  have huuid : removeAll "uuid:".toList 0 u.text = u.text :=
    removeAll_of_absent rfl (habsent 'u' rfl)
  have hbraces : strip (fun c => c = '\x7b' || c = '\x7d') u.text = u.text :=
    strip_of_absent fun c hc => of_isTextChar
      (fun c => (decide (c = '\x7b') || decide (c = '\x7d')) = false) (by simp)
      (isTextChar_of_mem hc)
  have hread : readInt space (hexChars 32 u.int) = some (u.int % 16 ^ 32) :=
    readInt_hexChars hspace 31 u.int
  rw [Nat.mod_eq_of_lt u.bounded] at hread
  simp only [ofText, hurn, huuid, hbraces, filter_text, hread, length_hexChars, ne_eq,
    not_true_eq_false, if_false, u.bounded, dif_pos]

theorem text_injective : Function.Injective text := by
  intro u v h
  have hspace : ∀ c, isTextChar c = true → (fun _ : Char => false) c = false := fun _ _ => rfl
  have hu := ofText_text hspace u
  rw [h, ofText_text hspace v] at hu
  exact (Option.some.inj hu).symm

end Uuid
