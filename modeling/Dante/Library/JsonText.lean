import Dante.Library.Json
import Mathlib.Data.List.TakeWhile
import Std.Data.String.ToInt

/-! # The canonical text determines the value

Strings and brackets carry their own end; a number ends at the first character that no
number contains. So a text followed by a delimiter splits in only one way. -/

namespace JsonText

/-! ## Strings -/

/-- The inverse of one escape. -/
def unescape : List Char → Option (Char × List Char)
  | '\\' :: '"' :: r => some ('"', r)
  | '\\' :: '\\' :: r => some ('\\', r)
  | '\\' :: 'n' :: r => some ('\n', r)
  | '\\' :: 'r' :: r => some ('\r', r)
  | '\\' :: 't' :: r => some ('\t', r)
  | '\\' :: 'b' :: r => some (Char.ofNat 8, r)
  | '\\' :: 'f' :: r => some (Char.ofNat 12, r)
  | '\\' :: 'u' :: '0' :: '0' :: h :: l :: r =>
      some (Char.ofNat (16 * (if h = '0' then 0 else 1) +
        (if l.isDigit then l.toNat - 48 else l.toNat - 87)), r)
  | c :: r => some (c, r)
  | [] => none

theorem unescape_control (n : ℕ) (hn : n < 32) (r : List Char) :
    unescape ('\\' :: 'u' :: '0' :: '0' :: hexDigit (n / 16) :: hexDigit (n % 16) :: r) =
      some (Char.ofNat n, r) := by
  simp only [unescape, Option.some.injEq, Prod.mk.injEq, and_true]
  interval_cases n <;> decide

theorem unescape_escapeChar (c : Char) (r : List Char) :
    unescape (escapeChar c ++ r) = some (c, r) := by
  unfold escapeChar
  split
  · subst_vars; rfl
  split
  · subst_vars; rfl
  split
  · subst_vars; rfl
  split
  · subst_vars; rfl
  split
  · subst_vars; rfl
  split
  · rename_i h
    simp only [List.cons_append, List.nil_append, unescape, ← h, Char.ofNat_toNat]
  split
  · rename_i h
    simp only [List.cons_append, List.nil_append, unescape, ← h, Char.ofNat_toNat]
  split
  · rename_i h
    have hc := unescape_control c.toNat h r
    rw [Char.ofNat_toNat] at hc
    exact hc
  · rename_i hquote hslash _ _ _ _ _ _
    simp only [List.cons_append, List.nil_append]
    rw [unescape.eq_def]
    split <;> simp_all

theorem escapeChar_ne_nil (c : Char) : escapeChar c ≠ [] := by
  intro h
  have hc := unescape_escapeChar c []
  simp [h, unescape] at hc

/-- Only the closing quote of a string is not preceded by a backslash. -/
theorem escapeChar_head (c : Char) (r s : List Char) : escapeChar c ++ r ≠ '"' :: s := by
  unfold escapeChar
  intro h
  split at h
  · simp at h
  repeat' split at h
  all_goals simp_all

theorem escapeChar_append_inj {c d : Char} {r s : List Char}
    (h : escapeChar c ++ r = escapeChar d ++ s) : c = d ∧ r = s := by
  have hc := unescape_escapeChar c r
  rw [h, unescape_escapeChar] at hc
  simp only [Option.some.injEq, Prod.mk.injEq] at hc
  exact ⟨hc.1.symm, hc.2.symm⟩

theorem quoteChars_append_inj (cs ds r s : List Char)
    (h : quoteChars cs ++ r = quoteChars ds ++ s) : cs = ds ∧ r = s := by
  induction cs generalizing ds with
  | nil =>
      cases ds with
      | nil => simpa [quoteChars] using h
      | cons d ds =>
          simp only [quoteChars, List.cons_append, List.nil_append, List.append_assoc] at h
          exact absurd h.symm (escapeChar_head d _ _)
  | cons c cs ih =>
      cases ds with
      | nil =>
          simp only [quoteChars, List.cons_append, List.nil_append, List.append_assoc] at h
          exact absurd h (escapeChar_head c _ _)
      | cons d ds =>
          simp only [quoteChars, List.append_assoc] at h
          obtain ⟨rfl, hrest⟩ := escapeChar_append_inj h
          obtain ⟨rfl, rfl⟩ := ih ds hrest
          exact ⟨rfl, rfl⟩

theorem quote_append_inj {k l : String} {r s : List Char}
    (h : quote k ++ r = quote l ++ s) : k = l ∧ r = s := by
  simp only [quote, List.cons_append, List.cons.injEq, true_and] at h
  obtain ⟨hk, hr⟩ := quoteChars_append_inj _ _ _ _ h
  exact ⟨String.toList_inj.mp hk, hr⟩

/-! ## Numbers -/

/-- What may follow a number: nothing, or a character that no number contains. -/
def Delimited (r : List Char) : Prop :=
  ∀ c ∈ r.head?, isNumeral c = false

theorem isNumeral_of_isDigit {c : Char} (h : c.isDigit = true) : isNumeral c = true := by
  simp [isNumeral, h]

theorem ne_mark_of_isDigit {c : Char} (h : c.isDigit = true) : c ≠ '.' ∧ c ≠ 'e' := by
  refine ⟨?_, ?_⟩ <;> (rintro rfl; revert h; decide)

theorem int_chars (n : ℤ) :
    ∃ c cs, (toString n).toList = c :: cs ∧
      ∀ d ∈ c :: cs, isNumeral d = true ∧ d ≠ '.' ∧ d ≠ 'e' := by
  have hnat (m : ℕ) : ∃ c cs, m.repr.toList = c :: cs ∧ ∀ d ∈ c :: cs, d.isDigit = true := by
    obtain ⟨c, cs, h⟩ := List.exists_cons_of_ne_nil (@Nat.toDigits_ne_nil m 10)
    refine ⟨c, cs, by rw [Nat.toList_repr, h], ?_⟩
    intro d hd
    exact Nat.isDigit_of_mem_toDigits (by decide) (by decide) (h ▸ hd)
  cases n with
  | ofNat m =>
      obtain ⟨c, cs, h, hd⟩ := hnat m
      exact ⟨c, cs, h, fun d hm => ⟨isNumeral_of_isDigit (hd d hm), ne_mark_of_isDigit (hd d hm)⟩⟩
  | negSucc m =>
      obtain ⟨c, cs, h, hd⟩ := hnat (m + 1)
      refine ⟨'-', c :: cs, ?_, ?_⟩
      · change ("-" ++ (m + 1).repr).toList = _
        rw [String.toList_append, h]
        rfl
      · intro d hm
        rcases List.mem_cons.mp hm with rfl | hm
        · decide
        · exact ⟨isNumeral_of_isDigit (hd d hm), ne_mark_of_isDigit (hd d hm)⟩

theorem toString_int_injective {m n : ℤ} (h : (toString m).toList = (toString n).toList) : m = n :=
  Int.repr_injective (String.toList_inj.mp h)

/-- Two runs of numerals, each followed by a delimiter, split alike. -/
theorem numerals_append_inj {a b r s : List Char}
    (ha : ∀ c ∈ a, isNumeral c = true) (hb : ∀ c ∈ b, isNumeral c = true)
    (hr : Delimited r) (hs : Delimited s) (h : a ++ r = b ++ s) : a = b ∧ r = s := by
  have htake (x y : List Char) (hx : ∀ c ∈ x, isNumeral c = true) (hy : Delimited y) :
      (x ++ y).takeWhile isNumeral = x := by
    rw [List.takeWhile_append_of_pos hx]
    cases y with
    | nil => simp
    | cons c y => simp [hy c (by simp)]
  have hab : a = b := by rw [← htake a r ha hr, h, htake b s hb hs]
  subst hab
  exact ⟨rfl, List.append_cancel_left h⟩

theorem int_ne_float {n : ℤ} {f : FloatText} : (toString n).toList ≠ f.chars := by
  intro h
  obtain ⟨c, hc, hmark⟩ := f.marked
  obtain ⟨d, ds, hn, hd⟩ := int_chars n
  have hmem : c ∈ d :: ds := by rw [← hn, h]; exact hc
  rcases hmark with rfl | rfl
  · exact (hd _ hmem).2.1 rfl
  · exact (hd _ hmem).2.2 rfl

/-! ## Values -/

/-- The class of a text, read off its first character. -/
def leadKind (c : Char) : ℕ :=
  if c = 'n' then 0 else if c = 't' then 1 else if c = 'f' then 1
  else if c = '"' then 3 else if c = '[' then 4 else if c = '{' then 5
  else if isNumeral c = true then 6 else 7

def kind : Json → ℕ
  | .null => 0
  | .bool _ => 1
  | .str _ => 3
  | .arr _ => 4
  | .obj _ => 5
  | .int _ => 6
  | .float _ => 6
  | .nonFinite _ => 7

theorem leadKind_numeral {c : Char} (h : isNumeral c = true) : leadKind c = 6 := by
  have hne (d : Char) (hd : isNumeral d = false) : c ≠ d := by
    rintro rfl
    simp [h] at hd
  simp [leadKind, h, hne 'n' (by decide), hne 't' (by decide), hne 'f' (by decide),
    hne '"' (by decide), hne '[' (by decide), hne '{' (by decide)]

theorem text_lead (blank : List Char) (v : Json) (hv : finite v = true) :
    ∃ c cs, text blank v = c :: cs ∧ leadKind c = kind v := by
  cases v with
  | null => exact ⟨'n', ['u', 'l', 'l'], by simp only [text], rfl⟩
  | bool b =>
      cases b with
      | false => exact ⟨'f', ['a', 'l', 's', 'e'], by simp only [text], rfl⟩
      | true => exact ⟨'t', ['r', 'u', 'e'], by simp only [text], rfl⟩
  | int n =>
      obtain ⟨c, cs, h, hc⟩ := int_chars n
      exact ⟨c, cs, by simp only [text, h], leadKind_numeral (hc c (by simp)).1⟩
  | float f =>
      obtain ⟨c, hc, -⟩ := f.marked
      obtain ⟨d, ds, h⟩ := List.exists_cons_of_ne_nil (List.ne_nil_of_mem hc)
      exact ⟨d, ds, by simp only [text, h], leadKind_numeral (f.numeral d (by simp [h]))⟩
  | nonFinite k => simp [finite] at hv
  | str s => exact ⟨'"', quoteChars s.toList, by simp only [text, quote], rfl⟩
  | arr items =>
      cases items with
      | nil => exact ⟨'[', [']'], by simp only [text], rfl⟩
      | cons v items => exact ⟨'[', text blank v ++ textItems blank items, by simp only [text], rfl⟩
  | obj fields =>
      cases fields with
      | nil => exact ⟨'{', ['}'], by simp only [text], rfl⟩
      | cons f fields =>
          exact ⟨'{', quote f.1 ++ ':' :: (blank ++ (text blank f.2 ++ textFields blank fields)),
            by simp only [text], rfl⟩

theorem kind_eq_of_text_append {blank r s : List Char} {v w : Json}
    (hv : finite v = true) (hw : finite w = true)
    (h : text blank v ++ r = text blank w ++ s) : kind v = kind w := by
  obtain ⟨c, cs, hc, hkc⟩ := text_lead blank v hv
  obtain ⟨d, ds, hd, hkd⟩ := text_lead blank w hw
  rw [hc, hd, List.cons_append, List.cons_append] at h
  rw [← hkc, ← hkd, (List.cons.inj h).1]

/-- No value's text begins with a closing bracket. -/
theorem text_append_ne_close {blank r s : List Char} {v : Json} (hv : finite v = true) :
    text blank v ++ r ≠ ']' :: s := by
  intro h
  obtain ⟨c, cs, hc, hk⟩ := text_lead blank v hv
  rw [hc, List.cons_append] at h
  rw [(List.cons.inj h).1, show leadKind ']' = 7 by decide] at hk
  cases v <;> simp [kind, finite] at hk hv

theorem delimited_textItems (blank : List Char) (items : List Json) (r : List Char) :
    Delimited (textItems blank items ++ r) := by
  cases items <;> simp [Delimited, textItems, isNumeral]

theorem delimited_textFields (blank : List Char) (fields : List (String × Json)) (r : List Char) :
    Delimited (textFields blank fields ++ r) := by
  cases fields <;> simp [Delimited, textFields, isNumeral]

mutual
/-- A text followed by a delimiter determines the value and the rest. -/
theorem text_append_inj (blank : List Char) : ∀ (v w : Json) (r s : List Char),
    finite v = true → finite w = true → Delimited r → Delimited s →
      text blank v ++ r = text blank w ++ s → v = w ∧ r = s
  | .null, w, r, s, hv, hw, _, _, h => by
      have hk := kind_eq_of_text_append hv hw h
      cases w <;> simp_all [kind, text]
  | .bool a, w, r, s, hv, hw, _, _, h => by
      have hk := kind_eq_of_text_append hv hw h
      cases w <;> simp [kind] at hk
      rename_i b
      cases a <;> cases b <;> simp_all [text]
  | .int m, w, r, s, hv, hw, hr, hs, h => by
      have hk := kind_eq_of_text_append hv hw h
      obtain ⟨c, cs, hm, hc⟩ := int_chars m
      cases w <;> simp [kind] at hk
      · rename_i n
        obtain ⟨d, ds, hn, hd⟩ := int_chars n
        simp only [text] at h
        obtain ⟨htext, hrest⟩ := numerals_append_inj (fun x hx => (hc x (hm ▸ hx)).1)
          (fun x hx => (hd x (hn ▸ hx)).1) hr hs h
        exact ⟨congrArg Json.int (toString_int_injective htext), hrest⟩
      · rename_i f
        simp only [text] at h
        obtain ⟨htext, -⟩ := numerals_append_inj (fun x hx => (hc x (hm ▸ hx)).1) f.numeral hr hs h
        exact absurd htext int_ne_float
  | .float f, w, r, s, hv, hw, hr, hs, h => by
      have hk := kind_eq_of_text_append hv hw h
      cases w <;> simp [kind] at hk
      · rename_i n
        obtain ⟨d, ds, hn, hd⟩ := int_chars n
        simp only [text] at h
        obtain ⟨htext, -⟩ := numerals_append_inj f.numeral (fun x hx => (hd x (hn ▸ hx)).1) hr hs h
        exact absurd htext.symm int_ne_float
      · rename_i g
        simp only [text] at h
        obtain ⟨htext, hrest⟩ := numerals_append_inj f.numeral g.numeral hr hs h
        refine ⟨congrArg Json.float ?_, hrest⟩
        cases f
        cases g
        simpa using htext
  | .nonFinite k, _, _, _, hv, _, _, _, _ => by simp [finite] at hv
  | .str a, w, r, s, hv, hw, _, _, h => by
      have hk := kind_eq_of_text_append hv hw h
      cases w <;> simp [kind] at hk
      · simp only [text] at h
        obtain ⟨rfl, hrest⟩ := quote_append_inj h
        exact ⟨rfl, hrest⟩
  | .arr [], w, r, s, hv, hw, _, _, h => by
      have hk := kind_eq_of_text_append hv hw h
      cases w <;> simp [kind] at hk
      · rename_i items
        cases items with
        | nil => simpa [text] using h
        | cons w items =>
            simp only [finite, finiteItems, Bool.and_eq_true] at hw
            simp only [text, List.cons_append, List.nil_append, List.cons.injEq, true_and,
              List.append_assoc] at h
            exact absurd h.symm (text_append_ne_close hw.1)
  | .arr (v :: items), w, r, s, hv, hw, _, _, h => by
      have hk := kind_eq_of_text_append hv hw h
      simp only [finite, finiteItems, Bool.and_eq_true] at hv
      cases w <;> simp [kind] at hk
      · rename_i others
        cases others with
        | nil =>
            simp only [text, List.cons_append, List.nil_append, List.cons.injEq, true_and,
              List.append_assoc] at h
            exact absurd h (text_append_ne_close hv.1)
        | cons w others =>
            simp only [finite, finiteItems, Bool.and_eq_true] at hw
            simp only [text, List.cons_append, List.cons.injEq, true_and, List.append_assoc] at h
            obtain ⟨rfl, htail⟩ := text_append_inj blank v w _ _ hv.1 hw.1
              (delimited_textItems _ _ _) (delimited_textItems _ _ _) h
            obtain ⟨rfl, hrest⟩ := textItems_append_inj blank items others r s hv.2 hw.2 htail
            exact ⟨rfl, hrest⟩
  | .obj [], w, r, s, hv, hw, _, _, h => by
      have hk := kind_eq_of_text_append hv hw h
      cases w <;> simp [kind] at hk
      · rename_i fields
        cases fields with
        | nil => simpa [text] using h
        | cons f fields => simp [text, quote] at h
  | .obj ((k, v) :: fields), w, r, s, hv, hw, _, _, h => by
      have hk := kind_eq_of_text_append hv hw h
      simp only [finite, finiteFields, Bool.and_eq_true] at hv
      cases w <;> simp [kind] at hk
      · rename_i others
        cases others with
        | nil => simp [text, quote] at h
        | cons f others =>
            obtain ⟨l, w⟩ := f
            simp only [finite, finiteFields, Bool.and_eq_true] at hw
            simp only [text, List.cons_append, List.cons.injEq, true_and, List.append_assoc] at h
            obtain ⟨rfl, htail⟩ := quote_append_inj h
            have hvalue := List.append_cancel_left (List.cons.inj htail).2
            obtain ⟨rfl, hmore⟩ := text_append_inj blank v w _ _ hv.1 hw.1
              (delimited_textFields _ _ _) (delimited_textFields _ _ _) hvalue
            obtain ⟨rfl, hrest⟩ := textFields_append_inj blank fields others r s hv.2 hw.2 hmore
            exact ⟨rfl, hrest⟩

theorem textItems_append_inj (blank : List Char) : ∀ (items others : List Json) (r s : List Char),
    finiteItems items = true → finiteItems others = true →
      textItems blank items ++ r = textItems blank others ++ s → items = others ∧ r = s
  | [], [], r, s, _, _, h => by simpa [textItems] using h
  | [], _ :: _, r, s, _, _, h => by simp [textItems] at h
  | _ :: _, [], r, s, _, _, h => by simp [textItems] at h
  | v :: items, w :: others, r, s, hv, hw, h => by
      simp only [finiteItems, Bool.and_eq_true] at hv hw
      simp only [textItems, List.cons_append, List.cons.injEq, true_and, List.append_assoc] at h
      obtain ⟨rfl, htail⟩ := text_append_inj blank v w _ _ hv.1 hw.1
        (delimited_textItems _ _ _) (delimited_textItems _ _ _) (List.append_cancel_left h)
      obtain ⟨rfl, hrest⟩ := textItems_append_inj blank items others r s hv.2 hw.2 htail
      exact ⟨rfl, hrest⟩

theorem textFields_append_inj (blank : List Char) :
    ∀ (fields others : List (String × Json)) (r s : List Char),
      finiteFields fields = true → finiteFields others = true →
        textFields blank fields ++ r = textFields blank others ++ s → fields = others ∧ r = s
  | [], [], r, s, _, _, h => by simpa [textFields] using h
  | [], (_, _) :: _, r, s, _, _, h => by simp [textFields] at h
  | (_, _) :: _, [], r, s, _, _, h => by simp [textFields] at h
  | (k, v) :: fields, (l, w) :: others, r, s, hv, hw, h => by
      simp only [finiteFields, Bool.and_eq_true] at hv hw
      simp only [textFields, List.cons_append, List.cons.injEq, true_and, List.append_assoc] at h
      obtain ⟨rfl, htail⟩ := quote_append_inj (List.append_cancel_left h)
      have hvalue := List.append_cancel_left (List.cons.inj htail).2
      obtain ⟨rfl, hmore⟩ := text_append_inj blank v w _ _ hv.1 hw.1
        (delimited_textFields _ _ _) (delimited_textFields _ _ _) hvalue
      obtain ⟨rfl, hrest⟩ := textFields_append_inj blank fields others r s hv.2 hw.2 hmore
      exact ⟨rfl, hrest⟩
end

theorem text_injective {blank : List Char} {v w : Json} (hv : finite v = true)
    (hw : finite w = true) (h : text blank v = text blank w) : v = w :=
  (text_append_inj blank v w [] [] hv hw (by simp [Delimited]) (by simp [Delimited])
    (by simpa using h)).1

/-! ## Canonical values -/

theorem mem_of_lookup {β : Type} {k : String} {v : β} {fields : List (String × β)}
    (h : fields.lookup k = some v) : (k, v) ∈ fields := by
  obtain ⟨before, after, rfl, -⟩ := List.lookup_eq_some_iff.mp h
  simp

theorem lookup_eq_some_iff_mem {β : Type} {k : String} {v : β} {fields : List (String × β)}
    (h : (fields.map Prod.fst).Nodup) : fields.lookup k = some v ↔ (k, v) ∈ fields := by
  induction fields with
  | nil => simp
  | cons f fields ih =>
      obtain ⟨l, w⟩ := f
      simp only [List.map_cons, List.nodup_cons, List.mem_map, Prod.exists, exists_and_right,
        exists_eq_right, not_exists] at h
      rw [List.lookup_cons, List.mem_cons, Prod.mk.injEq]
      by_cases hk : k = l
      · subst hk
        simp only [beq_self_eq_true, Option.some.injEq, true_and]
        constructor
        · intro hw
          exact .inl hw.symm
        · rintro (hw | hw)
          · exact hw.symm
          · exact absurd hw (h.1 v)
      · have hbeq : (k == l) = false := beq_false_of_ne hk
        simp only [hbeq, hk, false_and, false_or]
        exact ih h.2

theorem lookup_insertionSort {k : String} {fields : List (String × Json)}
    (h : (fields.map Prod.fst).Nodup) :
    (fields.insertionSort (fun a b => a.1 ≤ b.1)).lookup k = fields.lookup k := by
  have hperm := List.perm_insertionSort (fun a b : String × Json => a.1 ≤ b.1) fields
  have hsorted : ((fields.insertionSort (fun a b => a.1 ≤ b.1)).map Prod.fst).Nodup :=
    (hperm.map Prod.fst).nodup_iff.mpr h
  apply Option.ext
  intro v
  rw [lookup_eq_some_iff_mem hsorted, lookup_eq_some_iff_mem h]
  exact hperm.mem_iff

theorem finiteFields_iff (fields : List (String × Json)) :
    finiteFields fields = true ↔ ∀ f ∈ fields, finite f.2 = true := by
  induction fields with
  | nil => simp [finiteFields]
  | cons f fields ih => simp [finiteFields, ih]

mutual
theorem finite_canonical : ∀ v : Json, finite (canonical v) = finite v
  | .null | .bool _ | .int _ | .float _ | .nonFinite _ | .str _ => by simp [canonical]
  | .arr items => by simpa [canonical, finite] using finiteItems_canonical items
  | .obj fields => by
      have hperm := List.perm_insertionSort (fun a b : String × Json => a.1 ≤ b.1)
        (canonicalFields fields)
      rw [← finiteFields_canonical_eq fields]
      simp only [canonical, finite]
      rw [Bool.eq_iff_iff, finiteFields_iff, finiteFields_iff]
      simp only [hperm.mem_iff]

theorem finiteItems_canonical : ∀ items : List Json,
    finiteItems (canonicalItems items) = finiteItems items
  | [] => by simp [canonicalItems]
  | v :: items => by
      simp [canonicalItems, finiteItems, finite_canonical v, finiteItems_canonical items]

theorem finiteFields_canonical_eq : ∀ fields : List (String × Json),
    finiteFields (canonicalFields fields) = finite (.obj fields)
  | [] => by simp [canonicalFields, finite]
  | (k, v) :: fields => by
      have ih := finiteFields_canonical_eq fields
      simp only [finite] at ih
      simp [canonicalFields, finite, finiteFields, finite_canonical v, ih]
end

/-- Equal canonical texts come from values that differ in key order only. -/
theorem normalized_inj {v w : Json} (hv : finite v = true) (hw : finite w = true)
    (h : normalized v = normalized w) : canonical v = canonical w :=
  text_injective (by rw [finite_canonical, hv]) (by rw [finite_canonical, hw]) h

/-- The value an object holds under a key. -/
def field? (k : String) : Json → Option Json
  | .obj fields => fields.lookup k
  | _ => none

theorem lookup_canonicalFields (k : String) (fields : List (String × Json)) :
    (canonicalFields fields).lookup k = (fields.lookup k).map canonical := by
  induction fields with
  | nil => simp [canonicalFields]
  | cons f fields ih =>
      obtain ⟨l, v⟩ := f
      simp only [canonicalFields, List.lookup_cons]
      cases k == l <;> simp [ih]

theorem map_fst_canonicalFields (fields : List (String × Json)) :
    (canonicalFields fields).map Prod.fst = fields.map Prod.fst := by
  induction fields with
  | nil => rfl
  | cons f fields ih => simp [canonicalFields, ih]

/-- Two objects with distinct keys and one canonical form agree field by field. -/
theorem lookup_canonical_eq {fields others : List (String × Json)}
    (hf : (fields.map Prod.fst).Nodup) (ho : (others.map Prod.fst).Nodup)
    (h : canonical (.obj fields) = canonical (.obj others)) (k : String) :
    (fields.lookup k).map canonical = (others.lookup k).map canonical := by
  simp only [canonical, Json.obj.injEq] at h
  have hfields : ((canonicalFields fields).map Prod.fst).Nodup := by
    rw [map_fst_canonicalFields]
    exact hf
  have hothers : ((canonicalFields others).map Prod.fst).Nodup := by
    rw [map_fst_canonicalFields]
    exact ho
  rw [← lookup_canonicalFields, ← lookup_canonicalFields, ← lookup_insertionSort hfields,
    ← lookup_insertionSort hothers, h]

end JsonText
