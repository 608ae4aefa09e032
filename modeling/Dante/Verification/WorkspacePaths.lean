import Dante.Model.Reference
import Dante.Model.WorkspaceTools
import Mathlib

/-! # Paths that the workspace tools return

What sanitizing leaves of a component, and when the relative path that a tool reports is the
argument for the same file. -/

namespace Dante

open JsonText Cleaning
open Tools

section Names

/-! ## Characters -/

theorem toNat_lt_of_isAlphanum {c : Char} (h : c.isAlphanum = true) : c.toNat < 128 := by
  simp only [Char.isAlphanum, Char.isAlpha, Char.isUpper, Char.isLower, Char.isDigit,
    Bool.or_eq_true, Bool.and_eq_true, decide_eq_true_eq, ge_iff_le, UInt32.le_iff_toNat_le] at h
  have hc : c.toNat = c.val.toNat := rfl
  have hupper : 'Z'.val.toNat = 90 := rfl
  have hlower : 'z'.val.toNat = 122 := rfl
  have hdigit : '9'.val.toNat = 57 := rfl
  omega

theorem toNat_lt_of_isNameChar {c : Char} (h : isNameChar c = true) : c.toNat < 128 := by
  simp only [isNameChar, Bool.or_eq_true, beq_iff_eq] at h
  rcases h with ((((h | rfl) | rfl) | rfl) | rfl) | rfl
  · exact toNat_lt_of_isAlphanum h
  all_goals decide

/-- A property of the characters of names is checked on the ASCII characters. -/
theorem of_isNameChar (P : Char → Prop)
    (h : ∀ n < 128, isNameChar (Char.ofNat n) = true → P (Char.ofNat n)) {c : Char}
    (hc : isNameChar c = true) : P c := by
  have hself : Char.ofNat c.toNat = c := Char.ofNat_toNat c
  rw [← hself]
  exact h c.toNat (toNat_lt_of_isNameChar hc) (hself.symm ▸ hc)

theorem not_isSpace_of_isNameChar {c : Char} (h : isNameChar c = true) : isSpace c = false :=
  of_isNameChar (fun c => isSpace c = false) (by decide +kernel) h

theorem ne_separator_of_isNameChar {c : Char} (h : isNameChar c = true) :
    c ≠ '/' ∧ c ≠ '\\' ∧ c ≠ ':' :=
  of_isNameChar (fun c => c ≠ '/' ∧ c ≠ '\\' ∧ c ≠ ':') (by decide +kernel) h

/-! ## Components -/

variable [AsciiFolding] {value part name : List Char}

theorem isNameChar_normalizeComponent (value : List Char) :
    ∀ c ∈ normalizeComponent value, isNameChar c = true := by
  intro c hc
  rcases mem_squeeze (mem_of_mem_strip hc) with rfl | ⟨hmem, -⟩
  · rfl
  · obtain ⟨d, -, rfl⟩ := List.mem_map.mp hmem
    split
    next hd => exact hd
    next => rfl

theorem normalizeComponent_sparse (value : List Char) :
    Sparse (· == '_') (normalizeComponent value) :=
  List.IsChain.infix (squeeze_sparse _ _ _) (strip_inside isEdge _)

theorem normalizeComponent_trimmed (value : List Char) :
    Trimmed isEdge (normalizeComponent value) :=
  strip_trimmed isEdge _

/-- A text of single underscores and other name characters is only trimmed. -/
theorem normalizeComponent_eq (hchars : ∀ c ∈ name, isNameChar c = true)
    (hsparse : Sparse (· == '_') name) : normalizeComponent name = strip isEdge name := by
  have hspace : ∀ c ∈ name, isSpace c = false :=
    fun c hc => not_isSpace_of_isNameChar (hchars c hc)
  have hfold : AsciiFolding.fold name = name :=
    AsciiFolding.fold_eq_self name fun c hc => toNat_lt_of_isNameChar (hchars c hc)
  have hstrip : strip isSpace name = name :=
    strip_eq_self_iff.mpr ⟨fun h => hspace _ (List.head_mem h), fun h => hspace _ (List.getLast_mem h)⟩
  have hsqueeze : squeeze isSpace '_' name = name := by
    apply squeeze_eq_self
    · apply List.Pairwise.isChain
      apply List.pairwise_of_forall_mem_list
      intro c hc d _ h
      rw [hspace c hc] at h
      cases h.1
    · intro c hc h
      rw [hspace c hc] at h
      cases h
  have hmap : (name.map fun c => if isNameChar c then c else '_') = name := by
    rw [List.map_congr_left (g := id) fun c hc => by simp [hchars c hc], List.map_id]
  have hunderscores : squeeze (· == '_') '_' name = name :=
    squeeze_eq_self hsparse fun c _ h => beq_iff_eq.mp h
  simp only [normalizeComponent, hfold, hstrip, hsqueeze, hmap, hunderscores]

/-- What `_sanitize_component` cuts the text of a component to. -/
def cut (value : List Char) : List Char :=
  (normalizeComponent value).take 120

theorem sanitizeComponent_ok : sanitizeComponent value = .ok name ↔
    normalizeComponent value ≠ [] ∧ isReserved (normalizeComponent value) = false ∧
      name = cut value := by
  simp only [sanitizeComponent, cut]
  by_cases hempty : normalizeComponent value = []
  · simp [hempty]
  · rw [if_neg (by simpa using hempty)]
    cases hreserved : isReserved (normalizeComponent value) with
    | true => simp
    | false => simp [hempty, eq_comm]

/-- A name that `_sanitize_component` may return. -/
structure SafeName (name : List Char) : Prop where
  nonempty : name ≠ []
  chars : ∀ c ∈ name, isNameChar c = true
  sparse : Sparse (· == '_') name
  head : ∀ h : name ≠ [], isEdge (name.head h) = false
  length : name.length ≤ 120
  free : isReserved name = false

omit [AsciiFolding] in
theorem length_of_reserved (h : isReserved name = true) :
    (name.takeWhile (· != '.')).length ≤ 4 := by
  have hlengths : ∀ reserved ∈ reservedNames, reserved.length ≤ 4 := by decide +kernel
  have hlength := hlengths _ (List.contains_iff_mem.mp h)
  simpa [String.length_ofList] using hlength

omit [AsciiFolding] in
/-- A name is not reserved because it is cut. -/
theorem isReserved_take (h : isReserved name = false) : isReserved (name.take 120) = false := by
  cases hcut : isReserved (name.take 120) with
  | false => rfl
  | true =>
      have hshort := length_of_reserved hcut
      rw [← List.take_takeWhile, List.length_take] at hshort
      have hlength : (name.takeWhile (· != '.')).length ≤ 120 := by omega
      have hsame : (name.take 120).takeWhile (· != '.') = name.takeWhile (· != '.') := by
        rw [← List.take_takeWhile, List.take_of_length_le hlength]
      rw [isReserved, hsame, ← isReserved, h] at hcut
      cases hcut

theorem SafeName.of_sanitize (h : sanitizeComponent value = .ok name) : SafeName name := by
  obtain ⟨hnonempty, hfree, rfl⟩ := sanitizeComponent_ok.mp h
  have hcut : cut value ≠ [] := by
    simpa [cut] using hnonempty
  have hfront : cut value <+: normalizeComponent value := List.take_prefix _ _
  refine ⟨hcut, fun c hc => ?_, ?_, fun h => ?_, ?_, ?_⟩
  · exact isNameChar_normalizeComponent value c (hfront.subset hc)
  · exact List.IsChain.prefix (normalizeComponent_sparse value) hfront
  · rw [head_of_front hfront h]
    exact (normalizeComponent_trimmed value).head hnonempty
  · exact List.length_take_le _ _
  · exact isReserved_take hfree

/-- A safe name is only ever cleared of what a cut has left at its end. -/
theorem SafeName.normalize (h : SafeName name) :
    normalizeComponent name = name.rdropWhile isEdge := by
  rw [normalizeComponent_eq h.chars h.sparse, strip_of_head h.head]

/-- A name is accepted again, as it is, if the cut has left no dot or underscore at its end. -/
theorem SafeName.sanitize_iff (h : SafeName name) :
    sanitizeComponent name = .ok name ↔ isEdge (name.getLast h.nonempty) = false := by
  rw [sanitizeComponent_ok, h.normalize, cut, h.normalize]
  constructor
  · intro hagain
    have hself : name.rdropWhile isEdge = name := by
      apply (rdropWhile_front isEdge name).eq_of_length_le
      rw [hagain.2.2]
      exact (List.length_take_le' _ _).trans (by rw [← hagain.2.2])
    exact Bool.eq_false_iff.mpr (List.rdropWhile_eq_self_iff.mp hself h.nonempty)
  · intro hlast
    have hself : name.rdropWhile isEdge = name := by
      apply List.rdropWhile_eq_self_iff.mpr
      intro _
      simp [hlast]
    rw [hself, List.take_of_length_le h.length]
    exact ⟨h.nonempty, h.free, rfl⟩

/-- The components are sanitized one by one. -/
theorem mapM_sanitize_ok {parts names : List (List Char)} :
    parts.mapM sanitizeComponent = .ok names ↔
      (∀ part ∈ parts, sanitizeComponent part = .ok (cut part)) ∧ names = parts.map cut := by
  induction parts generalizing names with
  | nil => simp [List.mapM_nil, pure, Except.pure, eq_comm]
  | cons part parts ih =>
      simp only [List.mapM_cons, Except.bind_eq_ok, Except.pure_eq_ok, ih, List.forall_mem_cons,
        List.map_cons]
      constructor
      · intro h
        obtain ⟨name, hname, rest, ⟨hall, rfl⟩, rfl⟩ := h
        obtain ⟨-, -, rfl⟩ := sanitizeComponent_ok.mp hname
        exact ⟨⟨hname, hall⟩, rfl⟩
      · intro h
        exact ⟨cut part, h.1.1, _, ⟨h.1.2, rfl⟩, h.2.symm⟩

theorem SafeName.of_mapM {parts names : List (List Char)}
    (h : parts.mapM sanitizeComponent = .ok names) : ∀ name ∈ names, SafeName name := by
  obtain ⟨hall, rfl⟩ := mapM_sanitize_ok.mp h
  intro name hname
  obtain ⟨part, hpart, rfl⟩ := List.mem_map.mp hname
  exact .of_sanitize (hall part hpart)

/-- Names are left as they are if each of them is. -/
theorem mapM_sanitize_self {names : List (List Char)} :
    names.mapM sanitizeComponent = .ok names ↔
      ∀ name ∈ names, sanitizeComponent name = .ok name := by
  have hself : names = names.map cut ↔ ∀ name ∈ names, name = cut name := by
    rw [← List.map_inj_left (f := fun name => name), List.map_id']
  rw [mapM_sanitize_ok, hself]
  constructor
  · intro h name hname
    exact (h.1 name hname).trans (congrArg Except.ok (h.2 name hname).symm)
  · intro h
    have hcut (name : List Char) (hname : name ∈ names) : name = cut name :=
      (sanitizeComponent_ok.mp (h name hname)).2.2
    refine ⟨fun name hname => ?_, hcut⟩
    exact (h name hname).trans (congrArg Except.ok (hcut name hname))

/-! ## Arguments -/

/-- The text of names with slashes between them. -/
def slashJoined (names : List (List Char)) : List Char :=
  ['/'].intercalate names

omit [AsciiFolding] in
theorem mem_slashJoined {names : List (List Char)} {c : Char} (h : c ∈ slashJoined names) :
    c = '/' ∨ ∃ name ∈ names, c ∈ name := by
  induction names with
  | nil => cases h
  | cons name names ih =>
      cases names with
      | nil => exact .inr ⟨name, List.mem_cons_self, by simpa [slashJoined] using h⟩
      | cons other names =>
          simp only [slashJoined, List.intercalate_cons_cons, List.mem_append,
            List.mem_singleton] at h
          rcases h with (h | h) | h
          · exact .inr ⟨name, List.mem_cons_self, h⟩
          · exact .inl h
          · rcases ih h with h | ⟨found, hfound, hc⟩
            · exact .inl h
            · exact .inr ⟨found, List.mem_cons_of_mem _ hfound, hc⟩

omit [AsciiFolding] in
theorem subset_slashJoined {names : List (List Char)} (hname : name ∈ names) :
    ∀ c ∈ name, c ∈ slashJoined names := by
  induction names with
  | nil => cases hname
  | cons other names ih =>
      intro c hc
      cases names with
      | nil =>
          obtain rfl := List.mem_singleton.mp hname
          simpa [slashJoined] using hc
      | cons next names =>
          simp only [slashJoined, List.intercalate_cons_cons, List.mem_append]
          rcases List.mem_cons.mp hname with rfl | hrest
          · exact .inl (.inl hc)
          · exact .inr (ih hrest c hc)

omit [AsciiFolding] in
theorem isNameChar_slashJoined {names : List (List Char)} (hnames : ∀ name ∈ names, SafeName name)
    {c : Char} (h : c ∈ slashJoined names) : c = '/' ∨ isNameChar c = true := by
  rcases mem_slashJoined h with h | ⟨name, hname, hc⟩
  · exact .inl h
  · exact .inr ((hnames name hname).chars c hc)

omit [AsciiFolding] in
theorem colon_mem_of_hasDrive {path : List Char} (h : hasDrive path = true) : ':' ∈ path := by
  unfold hasDrive at h
  split at h
  · simp
  · cases h

omit [AsciiFolding] in
theorem slashed_eq_self {path : List Char} (h : '\\' ∉ path) : slashed path = path := by
  rw [slashed, List.map_congr_left (g := fun c => c), List.map_id']
  intro c hc
  rw [if_neg]
  intro heq
  exact h (beq_iff_eq.mp heq ▸ hc)

omit [AsciiFolding] in
theorem head_slashJoined {name : List Char} {names : List (List Char)} (h : name ≠ []) :
    (slashJoined (name :: names)).head? = some (name.head h) := by
  obtain ⟨c, cs, rfl⟩ := List.exists_cons_of_ne_nil h
  cases names <;> rfl

omit [AsciiFolding] in
theorem splitOn_slashJoined {names : List (List Char)} (hne : names ≠ [])
    (hnames : ∀ name ∈ names, SafeName name) : (slashJoined names).splitOn '/' = names := by
  apply List.splitOn_intercalate
  · intro name hname hslash
    exact (ne_separator_of_isNameChar ((hnames name hname).chars _ hslash)).1 rfl
  · exact hne

omit [AsciiFolding] in
/-- Safe names are the components of their joined text. -/
theorem rawParts_slashJoined {names : List (List Char)} (hne : names ≠ [])
    (hnames : ∀ name ∈ names, SafeName name) :
    rawParts (slashJoined names) =
      if 240 < (slashJoined names).length then
        .error (.toolError "Percorso relativo vuoto o troppo lungo.")
      else .ok names := by
  have hchars {c : Char} (hc : c ∈ slashJoined names) : c ≠ '\\' ∧ c ≠ ':' := by
    rcases isNameChar_slashJoined hnames hc with rfl | hname
    · decide
    · exact (ne_separator_of_isNameChar hname).2
  have hhead : (slashJoined names).isEmpty = false ∧ (slashJoined names).head? ≠ some '/' := by
    obtain ⟨name, rest, rfl⟩ := List.exists_cons_of_ne_nil hne
    have hname := hnames name List.mem_cons_self
    have hfirst : (slashJoined (name :: rest)).head? = some (name.head hname.nonempty) :=
      head_slashJoined hname.nonempty
    constructor
    · cases hjoined : slashJoined (name :: rest) with
      | nil => simp [hjoined] at hfirst
      | cons c cs => rfl
    · rw [hfirst]
      intro hslash
      have hc := hname.chars _ (List.head_mem hname.nonempty)
      exact (ne_separator_of_isNameChar hc).1 (Option.some.inj hslash)
  have hslashed : slashed (slashJoined names) = slashJoined names :=
    slashed_eq_self fun hc => (hchars hc).1 rfl
  have hdrive : hasDrive (slashJoined names) = false := by
    rw [Bool.eq_false_iff]
    intro h
    exact (hchars (colon_mem_of_hasDrive h)).2 rfl
  have hfilter : (names.filter fun part => !part.isEmpty) = names := by
    apply List.filter_eq_self.mpr
    intro name hname
    simpa using (hnames name hname).nonempty
  have hdots : (names.any fun part => part == ['.'] || part == ['.', '.']) = false := by
    rw [List.any_eq_false]
    intro name hname hdot
    have hhead := (hnames name hname).head
    rw [Bool.or_eq_true, beq_iff_eq, beq_iff_eq] at hdot
    rcases hdot with rfl | rfl
    · exact absurd (hhead (by simp)) (by decide)
    · exact absurd (hhead (by simp)) (by decide)
  have hnonempty : names.isEmpty = false := by simpa using hne
  simp only [rawParts, hhead.1, hslashed, hdrive, splitOn_slashJoined hne hnames, hfilter, hdots,
    hnonempty, Bool.false_or, Bool.or_false, decide_eq_true_eq, beq_iff_eq, hhead.2,
    Bool.false_eq_true, if_false]

omit [AsciiFolding] in
theorem length_slashJoined (names : List (List Char)) :
    (slashJoined names).length = (names.map List.length).sum + (names.length - 1) := by
  induction names with
  | nil => rfl
  | cons name names ih =>
      cases names with
      | nil => simp [slashJoined]
      | cons other names =>
          have hcons : slashJoined (name :: other :: names) =
              name ++ ['/'] ++ slashJoined (other :: names) := List.intercalate_cons_cons ..
          rw [hcons, List.length_append, List.length_append, ih]
          simp only [List.map_cons, List.sum_cons, List.length_cons, List.length_nil]
          omega

omit [AsciiFolding] in
/-- The joined text of safe names has no end to strip, and is not the root's. -/
theorem strip_slashJoined {names : List (List Char)} (hne : names ≠ [])
    (hnames : ∀ name ∈ names, SafeName name) :
    strip isSpace (slashJoined names) = slashJoined names ∧ slashJoined names ≠ [] ∧
      slashJoined names ≠ ['.'] := by
  have hspace {c : Char} (hc : c ∈ slashJoined names) : isSpace c = false := by
    rcases isNameChar_slashJoined hnames hc with rfl | hname
    · decide
    · exact not_isSpace_of_isNameChar hname
  refine ⟨strip_eq_self_iff.mpr ⟨fun h => hspace (List.head_mem h),
    fun h => hspace (List.getLast_mem h)⟩, ?_⟩
  obtain ⟨name, rest, rfl⟩ := List.exists_cons_of_ne_nil hne
  have hname := hnames name List.mem_cons_self
  have hfirst : (slashJoined (name :: rest)).head? = some (name.head hname.nonempty) :=
    head_slashJoined hname.nonempty
  constructor
  · intro hnil
    simp [hnil] at hfirst
  · intro hdot
    rw [hdot] at hfirst
    have hedge := hname.head hname.nonempty
    rw [← Option.some.inj hfirst] at hedge
    cases hedge

/-! ## What is accepted again -/

/-- A cut leaves no dot or underscore at the end of the component. -/
def CutClean (part : List Char) : Prop :=
  ∀ h : 120 < (normalizeComponent part).length,
    isEdge ((normalizeComponent part).get ⟨119, Nat.lt_of_succ_lt h⟩) = false

theorem getLast_cut (hcut : cut part ≠ []) :
    isEdge ((cut part).getLast hcut) = false ↔ CutClean part := by
  have hnonempty : normalizeComponent part ≠ [] := by
    intro hnil
    simp [cut, hnil] at hcut
  by_cases hlong : 120 < (normalizeComponent part).length
  · have hlength : (cut part).length = 120 := by
      simp only [cut, List.length_take]
      omega
    have hlast : (cut part).getLast hcut =
        (normalizeComponent part).get ⟨119, Nat.lt_of_succ_lt hlong⟩ := by
      rw [List.getLast_eq_getElem, List.get_eq_getElem]
      simp only [hlength]
      exact List.getElem_take
    rw [hlast]
    exact ⟨fun h _ => h, fun h => h hlong⟩
  · have hself : cut part = normalizeComponent part := by
      rw [cut, List.take_of_length_le (Nat.le_of_not_lt hlong)]
    simp only [hself, (normalizeComponent_trimmed part).last hnonempty, true_iff]
    intro h
    exact absurd h hlong

/-- The components of `p`, if it has any, are cut cleanly and still fit in an argument. -/
def CutsClean (p : String) : Prop :=
  ∀ parts, rawParts (strip isSpace p.toList) = .ok parts →
    (∀ part ∈ parts, CutClean part) ∧
      (parts.map fun part => min 120 (normalizeComponent part).length).sum +
        (parts.length - 1) ≤ 240

/-- A name that is returned is returned again, and can stand in a path. -/
structure SettledName (name : List Char) : Prop where
  again : sanitizeComponent name = .ok name
  nonempty : name ≠ []
  length : name.length ≤ 120
  trimmed : Trimmed isEdge name
  free : isReserved name = false

theorem SafeName.settled_iff (h : SafeName name) :
    SettledName name ↔ sanitizeComponent name = .ok name := by
  constructor
  · intro hsettled
    exact hsettled.again
  · intro hagain
    have hlast := h.sanitize_iff.mp hagain
    exact ⟨hagain, h.nonempty, h.length, ⟨h.head, fun _ => hlast⟩, h.free⟩

theorem settled_cut (h : sanitizeComponent part = .ok name) :
    SettledName name ↔ CutClean part := by
  have hsafe := SafeName.of_sanitize h
  obtain ⟨-, -, rfl⟩ := sanitizeComponent_ok.mp h
  rw [hsafe.settled_iff, hsafe.sanitize_iff, getLast_cut]

/-- Without folding, a component does not grow. -/
theorem length_normalizeComponent_le (hascii : ∀ c ∈ part, c.toNat < 128) :
    (normalizeComponent part).length ≤ part.length := by
  have hstrip (p : Char → Bool) (l : List Char) : (strip p l).length ≤ l.length :=
    (strip_inside p l).length_le
  have hinner : (squeeze isSpace '_' (strip isSpace part)).length ≤ part.length :=
    (length_squeeze_le isSpace '_' _).trans (hstrip isSpace part)
  rw [normalizeComponent, AsciiFolding.fold_eq_self part hascii]
  apply (hstrip isEdge _).trans
  apply (length_squeeze_le (· == '_') '_' _).trans
  rw [List.length_map]
  exact hinner

/-- The names of an ASCII argument fit in an argument. -/
theorem fits_of_ascii {raw : List Char} {parts : List (List Char)}
    (hascii : ∀ c ∈ raw, c.toNat < 128) (hparts : rawParts raw = .ok parts) :
    (parts.map fun part => min 120 (normalizeComponent part).length).sum +
      (parts.length - 1) ≤ 240 := by
  obtain ⟨hlength, rfl⟩ : raw.length ≤ 240 ∧
      ((slashed raw).splitOn '/').filter (fun part => !part.isEmpty) = parts := by
    simp only [rawParts] at hparts
    split at hparts
    · cases hparts
    next hlong =>
      split at hparts
      · cases hparts
      split at hparts
      · cases hparts
      refine ⟨?_, Except.ok.inj hparts⟩
      simp only [Bool.or_eq_true, decide_eq_true_eq, not_or] at hlong
      exact Nat.le_of_not_lt hlong.2
  have hjoined : slashJoined ((slashed raw).splitOn '/') = slashed raw :=
    List.intercalate_splitOn '/'
  generalize (slashed raw).splitOn '/' = all at hjoined ⊢
  have hsub : List.Sublist (all.filter fun part => !part.isEmpty) all := List.filter_sublist
  have hslashed {c : Char} (hc : c ∈ slashed raw) : c.toNat < 128 := by
    obtain ⟨d, hd, rfl⟩ := List.mem_map.mp hc
    split
    · decide
    · exact hascii d hd
  have hgrow : ∀ part ∈ all, min 120 (normalizeComponent part).length ≤ part.length := by
    intro part hpart
    have hmem : ∀ c ∈ part, c ∈ slashed raw := by
      rw [← hjoined]
      exact subset_slashJoined hpart
    exact (Nat.min_le_right _ _).trans
      (length_normalizeComponent_le fun c hc => hslashed (hmem c hc))
  have hall : (all.map List.length).sum + (all.length - 1) = raw.length := by
    rw [← length_slashJoined, hjoined, slashed, List.length_map]
  have hsum : ((all.filter fun part => !part.isEmpty).map
      fun part => min 120 (normalizeComponent part).length).sum ≤ (all.map List.length).sum :=
    ((hsub.map _).sum_le_sum fun _ _ => Nat.zero_le _).trans (List.sum_le_sum hgrow)
  have hcount := hsub.length_le
  omega

/-! ## Paths below the root -/

/-- The names of an argument below the root; the root itself has none. -/
def namesOf (p : String) (allowRoot : Bool) : Except ToolFault (List (List Char)) :=
  let raw := strip isSpace p.toList
  if allowRoot && (raw == [] || raw == ['.']) then .ok [] else safeParts raw

variable {p path : String} {allowRoot : Bool} {names : List (List Char)}

theorem SafeName.of_namesOf (h : namesOf p allowRoot = .ok names) :
    ∀ name ∈ names, SafeName name := by
  simp only [namesOf] at h
  split at h
  · cases h
    intro name hname
    cases hname
  · obtain ⟨parts, -, hparts⟩ := Except.bind_eq_ok.mp h
    exact .of_mapM hparts

variable [Platform] {tools : Tools} {fs : FileSystem}

/-- The path of `names` below the root. -/
def Tools.below (tools : Tools) (names : List (List Char)) : String :=
  joined tools.root (names.map String.ofList)

/-- There are no links at the root or below it: a path of safe names is where it says. -/
structure LinkFree (tools : Tools) (fs : FileSystem) : Prop where
  resolve : ∀ names, (∀ name ∈ names, SafeName name) →
    fs.resolve (tools.below names) = .ok (tools.below names)
  relative : ∀ names, (∀ name ∈ names, SafeName name) →
    Platform.isRelativeTo (tools.below names) tools.root = true
  parts : ∀ names, (∀ name ∈ names, SafeName name) →
    Platform.parts (tools.below names) = Platform.parts tools.root ++ names.map String.ofList

omit [AsciiFolding] in
theorem LinkFree.below_injective (hfree : LinkFree tools fs) {names' : List (List Char)}
    (hnames : ∀ name ∈ names, SafeName name) (hnames' : ∀ name ∈ names', SafeName name)
    (h : tools.below names = tools.below names') : names = names' := by
  have hparts := hfree.parts names hnames
  rw [h, hfree.parts names' hnames'] at hparts
  have hmap := List.append_cancel_left hparts
  exact (List.map_injective_iff.mpr (fun _ _ h => String.ofList_injective h) hmap).symm

theorem LinkFree.safePath (hfree : LinkFree tools fs) (p : String) (allowRoot : Bool) :
    tools.safePath fs p allowRoot = (namesOf p allowRoot).map tools.below := by
  simp only [Tools.safePath, namesOf]
  split
  · rfl
  · cases hparts : safeParts (strip isSpace p.toList) with
    | error e => rfl
    | ok names =>
        have hnames : ∀ name ∈ names, SafeName name := by
          obtain ⟨parts, -, hparts⟩ := Except.bind_eq_ok.mp hparts
          exact .of_mapM hparts
        have hresolved : resolved fs (joined tools.root (names.map String.ofList)) =
            .ok (tools.below names) := by
          have hresolve := hfree.resolve names hnames
          rw [Tools.below] at hresolve
          rw [resolved, hresolve]
          rfl
        have hrelative := hfree.relative names hnames
        change (resolved fs _).bind _ = _
        rw [hresolved]
        change (if Platform.isRelativeTo (tools.below names) tools.root = true then _ else _) = _
        rw [if_pos hrelative]
        rfl

omit [AsciiFolding] in
theorem LinkFree.relative_below (hfree : LinkFree tools fs)
    (hnames : ∀ name ∈ names, SafeName name) :
    tools.relative fs (tools.below names) =
      .ok (if names = [] then "." else String.ofList (slashJoined names)) := by
  have hresolved : resolved fs (tools.below names) = .ok (tools.below names) := by
    rw [resolved, hfree.resolve names hnames]
  have htexts : (names.map String.ofList).map String.toList = names := by
    simp [Function.comp_def]
  have hslash : slashed (slashJoined names) = slashJoined names := by
    apply slashed_eq_self
    intro hc
    rcases isNameChar_slashJoined hnames hc with h | h
    · cases h
    · exact (ne_separator_of_isNameChar h).2.1 rfl
  have hdrop : (Platform.parts (tools.below names)).drop (Platform.parts tools.root).length =
      names.map String.ofList := by
    rw [hfree.parts names hnames, List.drop_left]
  rw [slashJoined] at hslash
  simp only [Tools.relative, hresolved, bind, Except.bind, hfree.relative names hnames, hdrop,
    List.isEmpty_map, htexts, hslash, if_true]
  cases names <;> rfl

omit [Platform] in
/-- The argument that is reported for names is read as these names if it fits and each of them
is settled. -/
theorem namesOf_slashJoined (hne : names ≠ []) (hnames : ∀ name ∈ names, SafeName name) :
    namesOf (String.ofList (slashJoined names)) allowRoot =
      if 240 < (slashJoined names).length then
        .error (.toolError "Percorso relativo vuoto o troppo lungo.")
      else names.mapM sanitizeComponent := by
  obtain ⟨hstrip, hnil, hdot⟩ := strip_slashJoined hne hnames
  have hroot : (allowRoot && (slashJoined names == [] || slashJoined names == ['.'])) = false := by
    simp [hnil, hdot]
  simp only [namesOf, String.toList_ofList, hstrip, hroot, Bool.false_eq_true, if_false, safeParts,
    rawParts_slashJoined hne hnames]
  split <;> rfl

/-- The report of a path of names leads back to it if it fits and each name is settled. -/
theorem LinkFree.again_iff (hfree : LinkFree tools fs) (hne : names ≠ [])
    (hnames : ∀ name ∈ names, SafeName name) :
    tools.safePath fs (String.ofList (slashJoined names)) allowRoot = .ok (tools.below names) ↔
      (slashJoined names).length ≤ 240 ∧ ∀ name ∈ names, SettledName name := by
  rw [hfree.safePath, namesOf_slashJoined hne hnames]
  have hsettled : (∀ name ∈ names, SettledName name) ↔ names.mapM sanitizeComponent = .ok names := by
    rw [mapM_sanitize_self]
    apply forall₂_congr
    intro name hname
    exact (hnames name hname).settled_iff
  rw [hsettled]
  by_cases hlong : 240 < (slashJoined names).length
  · rw [if_pos hlong]
    constructor
    · intro h
      cases h
    · intro h
      exact absurd h.1 (Nat.not_le_of_lt hlong)
  · rw [if_neg hlong]
    constructor
    · intro h
      cases hread : names.mapM sanitizeComponent with
      | error e =>
          rw [hread] at h
          cases h
      | ok found =>
          rw [hread] at h
          have hbelow : tools.below found = tools.below names := Except.ok.inj h
          rw [hfree.below_injective (SafeName.of_mapM hread) hnames hbelow]
          exact ⟨Nat.le_of_not_lt hlong, rfl⟩
    · intro h
      rw [h.2]
      rfl

/-! ## The relative path of an accepted argument -/

/-- The relative path of what `p` is accepted as is accepted as the same path again, and the
names it consists of are settled. -/
structure Stable (tools : Tools) (fs : FileSystem) (allowRoot : Bool) (p path : String) :
    Prop where
  again : ∃ r, tools.relative fs path = .ok r ∧ tools.safePath fs r allowRoot = .ok path ∧
    r.length ≤ 240
  settled : ∀ parts, rawParts (strip isSpace p.toList) = .ok parts → ∀ part ∈ parts,
    ∃ name, sanitizeComponent part = .ok name ∧ SettledName name

omit [AsciiFolding] [Platform] in
theorem rawParts_ne_nil {raw : List Char} {parts : List (List Char)}
    (h : rawParts raw = .ok parts) : parts ≠ [] ∧ raw ≠ [] ∧ raw ≠ ['.'] := by
  have hraw : raw ≠ [] ∧ raw ≠ ['.'] := by
    constructor <;> (rintro rfl; cases h)
  simp only [rawParts] at h
  split at h
  · cases h
  split at h
  · cases h
  split at h
  · cases h
  next hnone =>
    cases h
    refine ⟨?_, hraw⟩
    intro hnil
    simp [hnil] at hnone

omit [Platform] in
/-- An argument stands for the root, or it has components and each of them is sanitized. -/
theorem namesOf_ok (h : namesOf p allowRoot = .ok names) :
    (names = [] ∧ (strip isSpace p.toList = [] ∨ strip isSpace p.toList = ['.']) ∧
      allowRoot = true) ∨
    ∃ parts, rawParts (strip isSpace p.toList) = .ok parts ∧ names = parts.map cut ∧
      ∀ part ∈ parts, sanitizeComponent part = .ok (cut part) := by
  simp only [namesOf] at h
  split at h
  next hroot =>
    cases h
    simp only [Bool.and_eq_true, Bool.or_eq_true, beq_iff_eq] at hroot
    exact .inl ⟨rfl, hroot.2, hroot.1⟩
  next =>
    obtain ⟨parts, hparts, hmap⟩ := Except.bind_eq_ok.mp h
    obtain ⟨hall, rfl⟩ := mapM_sanitize_ok.mp hmap
    exact .inr ⟨parts, hparts, rfl, hall⟩

/-- What `_safe_path` accepts is stable if and only if no cut ends in a dot or an underscore and
the names fit in an argument. -/
theorem safe_path_stable_iff (hfree : LinkFree tools fs)
    (haccepted : tools.safePath fs p allowRoot = .ok path) :
    Stable tools fs allowRoot p path ↔ CutsClean p := by
  rw [hfree.safePath] at haccepted
  cases hread : namesOf p allowRoot with
  | error e =>
      rw [hread] at haccepted
      cases haccepted
  | ok names =>
      rw [hread] at haccepted
      have hpath : path = tools.below names := (Except.ok.inj haccepted).symm
      have hnames := SafeName.of_namesOf hread
      have hrelative := hfree.relative_below hnames
      rcases namesOf_ok hread with ⟨rfl, hroot, rfl⟩ | ⟨parts, hparts, rfl, hall⟩
      · have hnone {parts : List (List Char)} (h : rawParts (strip isSpace p.toList) = .ok parts) :
            False := by
          rcases hroot with hroot | hroot
          · exact (rawParts_ne_nil h).2.1 hroot
          · exact (rawParts_ne_nil h).2.2 hroot
        have hdot : tools.safePath fs "." true = .ok (tools.below []) := rfl
        constructor
        · intro _ parts h
          exact (hnone h).elim
        · intro _
          exact ⟨⟨".", hpath ▸ hrelative, hpath ▸ hdot, by decide⟩, fun parts h => (hnone h).elim⟩
      · have hne : parts.map cut ≠ [] := by
          simpa using (rawParts_ne_nil hparts).1
        have hsum : (slashJoined (parts.map cut)).length =
            (parts.map fun part => min 120 (normalizeComponent part).length).sum +
              (parts.length - 1) := by
          rw [length_slashJoined, List.map_map, List.length_map]
          simp only [Function.comp_def, cut, List.length_take]
        have hclean : (∀ name ∈ parts.map cut, SettledName name) ↔ ∀ part ∈ parts, CutClean part := by
          rw [List.forall_mem_map]
          apply forall₂_congr
          intro part hpart
          exact settled_cut (hall part hpart)
        have hagain : tools.safePath fs (String.ofList (slashJoined (parts.map cut))) allowRoot =
            .ok (tools.below (parts.map cut)) ↔
              (slashJoined (parts.map cut)).length ≤ 240 ∧
                ∀ name ∈ parts.map cut, SettledName name :=
          hfree.again_iff hne hnames
        rw [if_neg hne] at hrelative
        constructor
        · intro h parts' hparts'
          obtain rfl : parts = parts' := Except.ok.inj (hparts.symm.trans hparts')
          obtain ⟨r, hr, hpathAgain, -⟩ := h.again
          rw [hpath, hrelative] at hr
          rw [← Except.ok.inj hr, hpath] at hpathAgain
          obtain ⟨hfits, hsettled⟩ := hagain.mp hpathAgain
          exact ⟨hclean.mp hsettled, hsum ▸ hfits⟩
        · intro h
          obtain ⟨hcuts, hfits⟩ := h parts hparts
          have hsettled := hclean.mpr hcuts
          constructor
          · refine ⟨_, hpath ▸ hrelative, hpath ▸ hagain.mpr ⟨hsum ▸ hfits, hsettled⟩, ?_⟩
            rw [String.length_ofList, hsum]
            exact hfits
          · intro parts' hparts' part hpart
            obtain rfl : parts = parts' := Except.ok.inj (hparts.symm.trans hparts')
            exact ⟨cut part, hall part hpart, hsettled _ (List.mem_map_of_mem hpart)⟩

end Names

section Reference

variable {root : String} {names : List (List Char)}

/-! ## A workspace to run on -/

local instance workspaceFolding : AsciiFolding := .dropping

local instance workspacePlatform : Platform := .reference []

theorem toList_below (root : String) (names : List (List Char)) :
    (Tools.below ⟨root⟩ names).toList = root.toList ++ names.flatMap fun name => '/' :: name := by
  induction names generalizing root with
  | nil => simp [Tools.below, joined]
  | cons name names ih =>
      have hstep : Tools.below ⟨root⟩ (name :: names) =
          Tools.below ⟨root ++ "/" ++ String.ofList name⟩ names := rfl
      rw [hstep, ih]
      simp

theorem segments_below (hnames : ∀ name ∈ names, SafeName name) :
    segments (Tools.below ⟨root⟩ names) = segments root ++ names.map String.ofList := by
  rw [segments, toList_below]
  induction names generalizing root with
  | nil => simp [segments]
  | cons name names ih =>
      have hsplit : (root.toList ++ '/' :: name).splitOn '/' =
          root.toList.splitOn '/' ++ [name] := by
        have hslash : '/' ∉ name := by
          intro hslash
          have hchar := (hnames name List.mem_cons_self).chars _ hslash
          exact (ne_separator_of_isNameChar hchar).1 rfl
        rw [List.splitOn_append_cons_self, List.splitOn_eq_singleton hslash]
      have hrest : segments (Tools.below ⟨String.ofList (root.toList ++ '/' :: name)⟩ names) =
          segments (String.ofList (root.toList ++ '/' :: name)) ++ names.map String.ofList := by
        rw [segments, toList_below]
        exact ih fun name hname => hnames name (List.mem_cons_of_mem _ hname)
      rw [segments, toList_below] at hrest
      simp only [String.toList_ofList, segments, hsplit] at hrest
      simpa [segments] using hrest

/-- A file system without links is link free everywhere. -/
theorem linkFree_holding (root : String) : LinkFree ⟨root⟩ (.holding []) where
  resolve _ _ := rfl
  relative names _ := by
    cases names with
    | nil => simp [Tools.below, joined, Platform.isRelativeTo]
    | cons name names =>
        have hfront : (root ++ "/").toList <+: (Tools.below ⟨root⟩ (name :: names)).toList := by
          rw [toList_below]
          exact ⟨name ++ names.flatMap fun name => '/' :: name, by simp⟩
        exact Bool.or_eq_true_iff.mpr (.inr ( List.isPrefixOf_iff_prefix.mpr hfront))
  parts _ hnames := segments_below hnames

theorem ok_of_toOption {ε α : Type} {x : Except ε α} {a : α} (h : x.toOption = some a) :
    x = .ok a := by
  cases x with
  | error e => cases h
  | ok b => rw [Option.some.inj h]

/-- A space and an accented letter go, and the relative path of the rest is stable. -/
theorem safe_path_stable_iff_spaced :
    Stable ⟨"/work"⟩ (.holding []) false " my dir/café.txt" "/work/my_dir/caf.txt" ↔
      CutsClean " my dir/café.txt" := by
  have haccepted : (Tools.safePath ⟨"/work"⟩ (.holding []) " my dir/café.txt" false).toOption =
      some "/work/my_dir/caf.txt" := by decide +kernel
  exact safe_path_stable_iff (linkFree_holding "/work") (ok_of_toOption haccepted)

/-- 119 letters and an underscore. -/
def Sample.cutName : List Char :=
  List.replicate 119 'a' ++ ['_']

theorem namesOf_cutName :
    namesOf (String.ofList (Sample.cutName ++ ['b'])) false = .ok [Sample.cutName] ∧
      namesOf (String.ofList Sample.cutName) false = .ok [List.replicate 119 'a'] := by
  constructor <;> apply ok_of_toOption <;> simp only [namesOf, String.toList_ofList] <;>
    decide +kernel

/-- A component of 121 characters is cut after an underscore, and its relative path is accepted
as the path without the underscore. -/
theorem cut_path_unstable :
    let tools : Tools := ⟨"/work"⟩
    let p := String.ofList (Sample.cutName ++ ['b'])
    tools.safePath (.holding []) p false = .ok (tools.below [Sample.cutName]) ∧
      tools.relative (.holding []) (tools.below [Sample.cutName]) =
        .ok (String.ofList Sample.cutName) ∧
      tools.safePath (.holding []) (String.ofList Sample.cutName) false =
        .ok (tools.below [List.replicate 119 'a']) ∧
      ¬Stable tools (.holding []) false p (tools.below [Sample.cutName]) := by
  have hfree := linkFree_holding "/work"
  obtain ⟨hfirst, hsecond⟩ := namesOf_cutName
  have hrelative := hfree.relative_below (SafeName.of_namesOf hfirst)
  have hagain : Tools.safePath ⟨"/work"⟩ (.holding []) (String.ofList Sample.cutName) false =
      .ok (Tools.below ⟨"/work"⟩ [List.replicate 119 'a']) := by
    rw [hfree.safePath, hsecond]
    rfl
  refine ⟨?_, hrelative, hagain, ?_⟩
  · rw [hfree.safePath, hfirst]
    rfl
  · intro h
    obtain ⟨r, hr, hpath, -⟩ := h.again
    obtain rfl : String.ofList Sample.cutName = r := Except.ok.inj (hrelative.symm.trans hr)
    have hbelow := Except.ok.inj (hagain.symm.trans hpath)
    have hnames := hfree.below_injective (SafeName.of_namesOf hsecond)
      (SafeName.of_namesOf hfirst) hbelow
    exact absurd hnames (by decide)

end Reference

end Dante
