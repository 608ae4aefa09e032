import Dante.Library.Json
import Mathlib.Data.List.Dedup

/-! # Comparing JSON objects

The paths at which two objects differ, with nested objects compared field by field. -/

namespace JsonText

deriving instance DecidableEq for FloatText

/-! ## Equality -/

mutual
/-- `==` of values that are written in one way: an undefined float differs from itself. -/
def equal : Json → Json → Bool
  | .null, .null => true
  | .bool a, .bool b => a == b
  | .int a, .int b => a == b
  | .float a, .float b => decide (a = b)
  | .nonFinite a, .nonFinite b => decide (a = b ∧ a ≠ .nan)
  | .str a, .str b => a == b
  | .arr a, .arr b => equalItems a b
  | .obj a, .obj b => equalFields a b
  | _, _ => false
def equalItems : List Json → List Json → Bool
  | [], [] => true
  | a :: left, b :: right => equal a b && equalItems left right
  | _, _ => false
def equalFields : List (String × Json) → List (String × Json) → Bool
  | [], [] => true
  | (k, a) :: left, (l, b) :: right => k == l && (equal a b && equalFields left right)
  | _, _ => false
end

mutual
theorem eq_of_equal : ∀ {a b : Json}, equal a b = true → a = b
  | .null, b, h => by cases b <;> simp_all [equal]
  | .bool _, b, h => by cases b <;> simp_all [equal]
  | .int _, b, h => by cases b <;> simp_all [equal]
  | .float _, b, h => by cases b <;> simp_all [equal]
  | .nonFinite _, b, h => by cases b <;> simp_all [equal]
  | .str _, b, h => by cases b <;> simp_all [equal]
  | .arr items, b, h => by
      cases b with
      | arr others => exact congrArg Json.arr (eq_of_equalItems (by simpa [equal] using h))
      | _ => simp [equal] at h
  | .obj fields, b, h => by
      cases b with
      | obj others => exact congrArg Json.obj (eq_of_equalFields (by simpa [equal] using h))
      | _ => simp [equal] at h
theorem eq_of_equalItems : ∀ {l r : List Json}, equalItems l r = true → l = r
  | [], r, h => by cases r <;> simp_all [equalItems]
  | v :: l, r, h => by
      cases r with
      | nil => simp [equalItems] at h
      | cons w r =>
          simp only [equalItems, Bool.and_eq_true] at h
          rw [eq_of_equal h.1, eq_of_equalItems h.2]
theorem eq_of_equalFields :
    ∀ {l r : List (String × Json)}, equalFields l r = true → l = r
  | [], r, h => by cases r <;> simp_all [equalFields]
  | (k, v) :: l, r, h => by
      cases r with
      | nil => simp [equalFields] at h
      | cons f r =>
          obtain ⟨name, w⟩ := f
          simp only [equalFields, Bool.and_eq_true, beq_iff_eq] at h
          rw [h.1, eq_of_equal h.2.1, eq_of_equalFields h.2.2]
end

mutual
theorem equal_self : ∀ {v : Json}, finite v = true → equal v v = true
  | .null, _ => rfl
  | .bool _, _ => by simp [equal]
  | .int _, _ => by simp [equal]
  | .float _, _ => by simp [equal]
  | .nonFinite _, h => by cases h
  | .str _, _ => by simp [equal]
  | .arr _, h => by
      rw [equal]
      exact equalItems_self (by simpa [finite] using h)
  | .obj _, h => by
      rw [equal]
      exact equalFields_self (by simpa [finite] using h)
theorem equalItems_self : ∀ {items : List Json}, finiteItems items = true →
    equalItems items items = true
  | [], _ => rfl
  | _ :: _, h => by
      simp only [finiteItems, Bool.and_eq_true] at h
      rw [equalItems, equal_self h.1, equalItems_self h.2]
      rfl
theorem equalFields_self : ∀ {fields : List (String × Json)}, finiteFields fields = true →
    equalFields fields fields = true
  | [], _ => rfl
  | (_, _) :: _, h => by
      simp only [finiteFields, Bool.and_eq_true] at h
      rw [equalFields, equal_self h.1, equalFields_self h.2]
      simp
end

/-- Only an undefined float is not equal to itself. -/
theorem equal_iff {a b : Json} (h : finite a = true) : equal a b = true ↔ a = b := by
  constructor
  · exact eq_of_equal
  · rintro rfl
    exact equal_self h

/-! ## Differences -/

/-- `d.get(key)`. -/
def getField (fields : List (String × Json)) (key : String) : Json :=
  (fields.lookup key).getD .null

/-- `sorted(left.keys() | right.keys())`. -/
def unionKeys (left right : List (String × Json)) : List String :=
  ((left.map Prod.fst ++ right.map Prod.fst).dedup).insertionSort (· ≤ ·)

theorem mem_unionKeys {left right : List (String × Json)} {key : String} :
    key ∈ unionKeys left right ↔ key ∈ left.map Prod.fst ∨ key ∈ right.map Prod.fst := by
  rw [unionKeys, List.mem_insertionSort, List.mem_dedup, List.mem_append]

/-- The differences of two objects, given how each field of the left one differs. -/
def merged (above : String) (differs : List (String × (Json → List String)))
    (left right : List (String × Json)) : List String :=
  (unionKeys left right).flatMap fun key =>
    match differs.lookup key with
    | some differ => differ (getField right key)
    | none => if equal .null (getField right key) then [] else [above ++ key]

mutual
/-- The paths at which a value differs from another. -/
def against (path : String) : Json → Json → List String
  | .obj left, .obj right =>
      merged (path ++ ".") (againstFields (path ++ ".") left) left right
  | a, b => if equal a b then [] else [path]
def againstFields (above : String) : List (String × Json) → List (String × (Json → List String))
  | [] => []
  | (key, a) :: left => (key, against (above ++ key) a) :: againstFields above left
end

/-- The paths at which two objects differ. -/
def differences (above : String) (left right : List (String × Json)) : List String :=
  merged above (againstFields above left) left right

theorem against_obj {path : String} {left right : List (String × Json)} :
    against path (.obj left) (.obj right) = differences (path ++ ".") left right := by
  rw [against, differences]

theorem lookup_againstFields {above key : String} {left : List (String × Json)} :
    (againstFields above left).lookup key =
      (left.lookup key).map (fun a => against (above ++ key) a) := by
  induction left with
  | nil => simp [againstFields]
  | cons f rest ih =>
      obtain ⟨name, a⟩ := f
      rw [againstFields, List.lookup_cons, List.lookup_cons]
      by_cases hkey : key = name
      · subst hkey
        simp
      · have hne : (key == name) = false := by simpa using hkey
        simpa [hne] using ih

/-- A value that is no object differs unless it is equal. -/
theorem eq_of_against {path : String} {a b : Json} (hleaf : ∀ fields, a ≠ .obj fields)
    (h : against path a b = []) : a = b := by
  cases a with
  | obj fields => exact absurd rfl (hleaf fields)
  | _ =>
      refine eq_of_equal ?_
      by_contra hne
      simp [against, hne] at h

/-- A finite value that is no object differs as a whole. -/
theorem mem_against {path name : String} {a b : Json} (hleaf : ∀ fields, a ≠ .obj fields)
    (hfinite : finite a = true) : name ∈ against path a b ↔ name = path ∧ a ≠ b := by
  have hagainst : against path a b = if equal a b then [] else [path] := by
    cases a with
    | obj fields => exact absurd rfl (hleaf fields)
    | _ => simp [against]
  rw [hagainst, Ne, ← equal_iff hfinite]
  cases equal a b <;> simp

/-- Objects with the same keys, in the same order, and the same fields are equal. -/
theorem eq_of_lookup {left right : List (String × Json)}
    (hkeys : left.map Prod.fst = right.map Prod.fst) (hnodup : (left.map Prod.fst).Nodup)
    (hfields : ∀ key ∈ left.map Prod.fst, left.lookup key = right.lookup key) : left = right := by
  induction left generalizing right with
  | nil =>
      cases right with
      | nil => rfl
      | cons g rest => cases hkeys
  | cons f left ih =>
      cases right with
      | nil => cases hkeys
      | cons g right =>
          obtain ⟨key, a⟩ := f
          obtain ⟨name, b⟩ := g
          simp only [List.map_cons, List.cons.injEq] at hkeys
          obtain ⟨rfl, hrest⟩ := hkeys
          simp only [List.map_cons, List.nodup_cons] at hnodup
          have hhead := hfields key (by simp)
          simp only [List.lookup_cons_self, Option.some.injEq] at hhead
          subst hhead
          refine congrArg _ (ih hrest hnodup.2 fun other hother => ?_)
          have hne : (other == key) = false := by
            rw [beq_eq_false_iff_ne]
            rintro rfl
            exact hnodup.1 hother
          have htail := hfields other (List.mem_cons_of_mem _ hother)
          simpa [List.lookup_cons, hne] using htail

/-- Objects with the same keys that show no difference are equal, if that holds of their
fields. -/
theorem eq_of_differences {above : String} {left right : List (String × Json)}
    (hkeys : left.map Prod.fst = right.map Prod.fst) (hnodup : (left.map Prod.fst).Nodup)
    (hfields : ∀ key a b, left.lookup key = some a → right.lookup key = some b →
      against (above ++ key) a b = [] → a = b)
    (h : differences above left right = []) : left = right := by
  refine eq_of_lookup hkeys hnodup fun key hkey => ?_
  have hsome {fields : List (String × Json)} (hmem : key ∈ fields.map Prod.fst) :
      ∃ v, fields.lookup key = some v := by
    obtain ⟨f, hf, rfl⟩ := List.mem_map.mp hmem
    rw [← Option.isSome_iff_exists, List.lookup_isSome_iff]
    exact ⟨f, hf, beq_self_eq_true _⟩
  obtain ⟨a, ha⟩ := hsome hkey
  obtain ⟨b, hb⟩ := hsome (hkeys ▸ hkey)
  have hnone := List.flatMap_eq_nil_iff.mp h key (mem_unionKeys.mpr (.inl hkey))
  rw [lookup_againstFields, ha] at hnone
  have hagainst : against (above ++ key) a b = [] := by
    simpa [getField, hb] using hnone
  rw [ha, hb, hfields key a b ha hb hagainst]

end JsonText
