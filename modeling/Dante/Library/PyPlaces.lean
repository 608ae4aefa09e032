import Dante.Library.PyValue

/-! # Places in Python values

A walk goes from a value into its parts, one step for each container it enters. What a walk
can reach is what the text of the value shows. -/

namespace JsonText

/-- A value that stands somewhere in a JSON value. -/
inductive Json.Shows (x : Json) : Json → Prop where
  | here : Json.Shows x x
  | item {items : List Json} {w : Json} :
      w ∈ items → Json.Shows x w → Json.Shows x (.arr items)
  | field {fields : List (String × Json)} {k : String} {w : Json} :
      (k, w) ∈ fields → Json.Shows x w → Json.Shows x (.obj fields)

namespace Value

/-- One step into a value. -/
inductive Step where
  /-- To the value of a key of a dict. -/
  | key (k : Value)
  /-- To an item of a list. -/
  | item (i : ℕ)
  /-- To an item of a tuple. -/
  | slot (i : ℕ)

/-- What stands at the end of a walk. -/
inductive At : Value → List Step → Value → Prop where
  | here {v : Value} : At v [] v
  | key {entries : List (Value × Value)} {k w x : Value} {path : List Step} :
      (k, w) ∈ entries → At w path x → At (.dict entries) (.key k :: path) x
  | item {items : List Value} {i : ℕ} {w x : Value} {path : List Step} :
      items[i]? = some w → At w path x → At (.list items) (.item i :: path) x
  | slot {items : List Value} {i : ℕ} {w x : Value} {path : List Step} :
      items[i]? = some w → At w path x → At (.tuple items) (.slot i :: path) x

/-- No list, no tuple and no dict. -/
def isScalar : Value → Bool
  | .list _ | .tuple _ | .dict _ => false
  | _ => true

mutual
/-- Every key in the value is one that `json.dumps` takes. -/
def encodable : Value → Bool
  | .list items => encodableItems items
  | .tuple items => encodableItems items
  | .dict entries => encodableEntries entries
  | _ => true
def encodableItems : List Value → Bool
  | [] => true
  | v :: items => encodable v && encodableItems items
def encodableEntries : List (Value × Value) → Bool
  | [] => true
  | (k, v) :: entries => isScalar k && encodable v && encodableEntries entries
end

variable {v w x : Value} {k : Value} {i : ℕ} {path : List Step} {items : List Value}
  {entries : List (Value × Value)}

/-! ## Walks -/

@[simp] theorem at_nil : At v [] x ↔ v = x := by
  constructor
  · intro h
    cases h
    rfl
  · rintro rfl
    exact .here

@[simp] theorem at_dict_key :
    At (.dict entries) (.key k :: path) x ↔ ∃ w, (k, w) ∈ entries ∧ At w path x := by
  constructor
  · intro h
    cases h with
    | key hmem hat => exact ⟨_, hmem, hat⟩
  · intro ⟨_, hmem, hat⟩
    exact .key hmem hat

@[simp] theorem at_list_item :
    At (.list items) (.item i :: path) x ↔ ∃ w, items[i]? = some w ∧ At w path x := by
  constructor
  · intro h
    cases h with
    | item hget hat => exact ⟨_, hget, hat⟩
  · intro ⟨_, hget, hat⟩
    exact .item hget hat

@[simp] theorem at_tuple_slot :
    At (.tuple items) (.slot i :: path) x ↔ ∃ w, items[i]? = some w ∧ At w path x := by
  constructor
  · intro h
    cases h with
    | slot hget hat => exact ⟨_, hget, hat⟩
  · intro ⟨_, hget, hat⟩
    exact .slot hget hat

/-- A walk stops at a scalar. -/
theorem At.scalar (h : At v path x) (hv : v.isScalar = true) : path = [] ∧ v = x := by
  cases h with
  | here => exact ⟨rfl, rfl⟩
  | key | item | slot => simp [isScalar] at hv

/-- The three kinds of container are entered by steps of their own. -/
theorem At.step {s : Step} (h : At v (s :: path) x) :
    (∃ k entries, s = .key k ∧ v = .dict entries) ∨ (∃ i items, s = .item i ∧ v = .list items) ∨
      ∃ i items, s = .slot i ∧ v = .tuple items := by
  cases h with
  | key => exact .inl ⟨_, _, rfl, rfl⟩
  | item => exact .inr (.inl ⟨_, _, rfl, rfl⟩)
  | slot => exact .inr (.inr ⟨_, _, rfl, rfl⟩)

/-! ## What a text shows -/

theorem toJson_scalar_inj (hv : v.isScalar = true) (hw : w.isScalar = true)
    (h : toJson v = toJson w) : v = w := by
  cases v <;> cases w <;> simp_all [toJson, isScalar]

theorem shows_scalar {y : Json} (hv : v.isScalar = true) : y.Shows (toJson v) ↔ y = toJson v := by
  constructor
  · intro h
    cases v with
    | list | tuple | dict => simp [isScalar] at hv
    | _ =>
        cases h
        rfl
  · rintro rfl
    exact .here

theorem shows_arr {y : Json} {items : List Json} (hy : ∀ items, y ≠ .arr items) :
    y.Shows (.arr items) ↔ ∃ w ∈ items, y.Shows w := by
  constructor
  · intro h
    cases h with
    | here => exact absurd rfl (hy _)
    | item hmem hw => exact ⟨_, hmem, hw⟩
  · intro ⟨_, hmem, hw⟩
    exact .item hmem hw

theorem shows_obj {y : Json} {fields : List (String × Json)} (hy : ∀ fields, y ≠ .obj fields) :
    y.Shows (.obj fields) ↔ ∃ k w, (k, w) ∈ fields ∧ y.Shows w := by
  constructor
  · intro h
    cases h with
    | here => exact absurd rfl (hy _)
    | field hmem hw => exact ⟨_, _, hmem, hw⟩
  · intro ⟨_, _, hmem, hw⟩
    exact .field hmem hw

theorem toJson_scalar_ne (hx : x.isScalar = true) :
    (∀ items, toJson x ≠ .arr items) ∧ ∀ fields, toJson x ≠ .obj fields := by
  cases x <;> simp_all [toJson, isScalar]

theorem toItems_eq_map : toItems items = items.map toJson := by
  induction items with
  | nil => rfl
  | cons v items ih => rw [toItems, ih, List.map_cons]

theorem toFields_eq_map :
    toFields entries = entries.map (fun e => (keyText e.1, toJson e.2)) := by
  induction entries with
  | nil => rfl
  | cons e entries ih => rw [toFields, ih, List.map_cons]

theorem shows_toJson_scalar (hv : v.isScalar = true) :
    (toJson x).Shows (toJson v) ↔ ∃ path, At v path x := by
  rw [shows_scalar hv]
  constructor
  · intro h
    have hx : x.isScalar = true := by
      cases x <;> cases v <;> simp_all [toJson, isScalar]
    exact ⟨[], at_nil.mpr (toJson_scalar_inj hx hv h).symm⟩
  · rintro ⟨path, hat⟩
    rw [(hat.scalar hv).2]

mutual
/-- The text of a value shows a scalar when a walk ends at it. -/
theorem shows_toJson (hx : x.isScalar = true) :
    ∀ v : Value, (toJson x).Shows (toJson v) ↔ ∃ path, At v path x
  | .none | .bool _ | .int _ | .float _ | .nonFinite _ | .str _ => shows_toJson_scalar rfl
  | .list items => by
      rw [toJson, toItems_eq_map, shows_arr (toJson_scalar_ne hx).1]
      constructor
      · intro ⟨w, hw, hshows⟩
        obtain ⟨u, hu, rfl⟩ := List.mem_map.mp hw
        obtain ⟨path, hat⟩ := (shows_toItems hx items u hu).mp hshows
        obtain ⟨i, hi⟩ := List.mem_iff_getElem?.mp hu
        exact ⟨.item i :: path, .item hi hat⟩
      · intro ⟨path, hat⟩
        cases hat with
        | here => simp [isScalar] at hx
        | item hget hat =>
            have hmem := List.mem_of_getElem? hget
            exact ⟨_, List.mem_map_of_mem hmem, (shows_toItems hx items _ hmem).mpr ⟨_, hat⟩⟩
  | .tuple items => by
      rw [toJson, toItems_eq_map, shows_arr (toJson_scalar_ne hx).1]
      constructor
      · intro ⟨w, hw, hshows⟩
        obtain ⟨u, hu, rfl⟩ := List.mem_map.mp hw
        obtain ⟨path, hat⟩ := (shows_toItems hx items u hu).mp hshows
        obtain ⟨i, hi⟩ := List.mem_iff_getElem?.mp hu
        exact ⟨.slot i :: path, .slot hi hat⟩
      · intro ⟨path, hat⟩
        cases hat with
        | here => simp [isScalar] at hx
        | slot hget hat =>
            have hmem := List.mem_of_getElem? hget
            exact ⟨_, List.mem_map_of_mem hmem, (shows_toItems hx items _ hmem).mpr ⟨_, hat⟩⟩
  | .dict entries => by
      rw [toJson, toFields_eq_map, shows_obj (toJson_scalar_ne hx).2]
      constructor
      · intro ⟨k, w, hw, hshows⟩
        obtain ⟨e, he, heq⟩ := List.mem_map.mp hw
        rw [← (Prod.mk.inj heq).2] at hshows
        obtain ⟨path, hat⟩ := (shows_toFields hx entries e he).mp hshows
        exact ⟨.key e.1 :: path, .key he hat⟩
      · intro ⟨path, hat⟩
        cases hat with
        | here => simp [isScalar] at hx
        | key hmem hat =>
            exact ⟨_, _, List.mem_map_of_mem hmem, (shows_toFields hx entries _ hmem).mpr ⟨_, hat⟩⟩

theorem shows_toItems (hx : x.isScalar = true) :
    ∀ items : List Value, ∀ u ∈ items, ((toJson x).Shows (toJson u) ↔ ∃ path, At u path x)
  | [] => List.forall_mem_nil _
  | v :: items => List.forall_mem_cons.mpr ⟨shows_toJson hx v, shows_toItems hx items⟩

theorem shows_toFields (hx : x.isScalar = true) :
    ∀ entries : List (Value × Value), ∀ e ∈ entries,
      ((toJson x).Shows (toJson e.2) ↔ ∃ path, At e.2 path x)
  | [] => List.forall_mem_nil _
  | (_, v) :: entries => List.forall_mem_cons.mpr ⟨shows_toJson hx v, shows_toFields hx entries⟩
end

end Value

end JsonText
