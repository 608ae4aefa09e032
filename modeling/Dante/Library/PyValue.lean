import Dante.Library.JsonText

/-! # Python values as JSON values

A value built from the types that JSON can represent, with lists apart from tuples and with
any value as the key of a dict. Two such values have one canonical text exactly when they
are equal as JSON values. -/

namespace JsonText

inductive Value where
  | none
  | bool (b : Bool)
  | int (n : Int)
  | float (f : FloatText)
  | nonFinite (k : NonFinite)
  | str (s : String)
  | list (items : List Value)
  | tuple (items : List Value)
  /-- The items of a dict, in insertion order. -/
  | dict (entries : List (Value × Value))

namespace Value

instance : Inhabited Value := ⟨.none⟩

def isStr : Value → Bool
  | .str _ => true
  | _ => false

/-! ## Encoding -/

/-- How `json.dumps` writes a key. It refuses the keys of the last case. -/
def keyText : Value → String
  | .str s => s
  | .none => "null"
  | .bool b => if b then "true" else "false"
  | .int n => toString n
  | .float f => String.ofList f.chars
  | .nonFinite k => String.ofList k.chars
  | .list _ | .tuple _ | .dict _ => ""

mutual
/-- The JSON value that `json.dumps` writes. -/
def toJson : Value → Json
  | .none => .null
  | .bool b => .bool b
  | .int n => .int n
  | .float f => .float f
  | .nonFinite k => .nonFinite k
  | .str s => .str s
  | .list items => .arr (toItems items)
  | .tuple items => .arr (toItems items)
  | .dict entries => .obj (toFields entries)
def toItems : List Value → List Json
  | [] => []
  | v :: items => toJson v :: toItems items
def toFields : List (Value × Value) → List (String × Json)
  | [] => []
  | (k, v) :: entries => (keyText k, toJson v) :: toFields entries
end

mutual
/-- The Python value that `json.loads` builds. -/
def ofJson : Json → Value
  | .null => .none
  | .bool b => .bool b
  | .int n => .int n
  | .float f => .float f
  | .nonFinite k => .nonFinite k
  | .str s => .str s
  | .arr items => .list (ofItems items)
  | .obj fields => .dict (ofFields fields)
def ofItems : List Json → List Value
  | [] => []
  | v :: items => ofJson v :: ofItems items
def ofFields : List (String × Json) → List (Value × Value)
  | [] => []
  | (k, v) :: fields => (.str k, ofJson v) :: ofFields fields
end

/-! ## Keys -/

mutual
/-- Every key of every dict in the value is a string. -/
def stringKeys : Value → Bool
  | .list items => stringKeysItems items
  | .tuple items => stringKeysItems items
  | .dict entries => entries.all (fun e => isStr e.1) && stringKeysEntries entries
  | _ => true
def stringKeysItems : List Value → Bool
  | [] => true
  | v :: items => stringKeys v && stringKeysItems items
def stringKeysEntries : List (Value × Value) → Bool
  | [] => true
  | (_, v) :: entries => stringKeys v && stringKeysEntries entries
end

mutual
/-- No dict in the value has one key twice. -/
def Distinct : Value → Prop
  | .list items => DistinctItems items
  | .tuple items => DistinctItems items
  | .dict entries => (entries.map Prod.fst).Nodup ∧ DistinctEntries entries
  | _ => True
def DistinctItems : List Value → Prop
  | [] => True
  | v :: items => Distinct v ∧ DistinctItems items
def DistinctEntries : List (Value × Value) → Prop
  | [] => True
  | (_, v) :: entries => Distinct v ∧ DistinctEntries entries
end

/-! ## Equality as JSON values -/

mutual
/-- Equality that ignores the order of keys, and whether a sequence is a list or a tuple.
A boolean is no number, and an integer no float; a float is equal to one of the same text. -/
def Same : Value → Value → Prop
  | .none, .none => True
  | .bool a, .bool b => a = b
  | .int a, .int b => a = b
  | .float a, .float b => a = b
  | .nonFinite a, .nonFinite b => a = b
  | .str a, .str b => a = b
  | .list a, .list b => SameItems a b
  | .list a, .tuple b => SameItems a b
  | .tuple a, .list b => SameItems a b
  | .tuple a, .tuple b => SameItems a b
  | .dict a, .dict b => SameEntries a b ∧ ∀ key ∈ b.map Prod.fst, key ∈ a.map Prod.fst
  | _, _ => False
def SameItems : List Value → List Value → Prop
  | [], [] => True
  | v :: items, w :: others => Same v w ∧ SameItems items others
  | _, _ => False
/-- Every entry of the first dict has its like in the second. -/
def SameEntries : List (Value × Value) → List (Value × Value) → Prop
  | [], _ => True
  | (k, v) :: entries, others => (∃ w, (k, w) ∈ others ∧ Same v w) ∧ SameEntries entries others
end

/-! ## One canonical form -/

/-- The encoding of every value of a dict with string keys. -/
theorem mem_toFields {entries : List (Value × Value)} {s : String} {c : Json}
    (hkeys : ∀ e ∈ entries, isStr e.1 = true) :
    (s, c) ∈ canonicalFields (toFields entries) ↔
      ∃ v, (.str s, v) ∈ entries ∧ canonical (toJson v) = c := by
  induction entries with
  | nil => simp [toFields, canonicalFields]
  | cons e entries ih =>
      obtain ⟨key, v⟩ := e
      have hkey : isStr key = true := hkeys (key, v) (by simp)
      cases key with
      | str k =>
          have hrest : ∀ e ∈ entries, isStr e.1 = true := fun e he =>
            hkeys e (List.mem_cons_of_mem _ he)
          simp only [toFields, canonicalFields, keyText, List.mem_cons, Prod.mk.injEq, ih hrest,
            Value.str.injEq]
          constructor
          · intro h
            cases h with
            | inl h => exact ⟨v, .inl ⟨h.1, rfl⟩, h.2.symm⟩
            | inr h =>
                obtain ⟨w, hw, hc⟩ := h
                exact ⟨w, .inr hw, hc⟩
          · intro ⟨w, hw, hc⟩
            cases hw with
            | inl hw => exact .inl ⟨hw.1, by rw [← hc, hw.2]⟩
            | inr hw => exact .inr ⟨w, hw, hc⟩
      | _ => simp [isStr] at hkey

theorem map_fst_toFields {entries : List (Value × Value)} :
    (toFields entries).map Prod.fst = entries.map (fun e => keyText e.1) := by
  induction entries with
  | nil => rfl
  | cons e entries ih => simp [toFields, ih]

theorem nodup_toFields {entries : List (Value × Value)}
    (hkeys : ∀ e ∈ entries, isStr e.1 = true) (hnodup : (entries.map Prod.fst).Nodup) :
    ((toFields entries).map Prod.fst).Nodup := by
  rw [map_fst_toFields]
  rw [List.Nodup, List.pairwise_map] at hnodup ⊢
  apply List.Pairwise.imp_of_mem _ hnodup
  intro e f he hf hne heq
  have hek := hkeys e he
  have hfk := hkeys f hf
  apply hne
  cases hx : e.1 <;> cases hy : f.1 <;> simp_all [isStr, keyText]

theorem stringKeysEntries_iff {entries : List (Value × Value)} :
    stringKeysEntries entries = true ↔ ∀ e ∈ entries, stringKeys e.2 = true := by
  induction entries with
  | nil => simp [stringKeysEntries]
  | cons e entries ih => simp [stringKeysEntries, ih]

theorem distinctEntries_iff {entries : List (Value × Value)} :
    DistinctEntries entries ↔ ∀ e ∈ entries, Distinct e.2 := by
  induction entries with
  | nil => simp [DistinctEntries]
  | cons e entries ih => simp [DistinctEntries, ih]

/-- Fields with distinct keys are sorted alike when they are the same fields. -/
theorem insertionSort_eq_iff {fields others : List (String × Json)}
    (hfields : (fields.map Prod.fst).Nodup) (hothers : (others.map Prod.fst).Nodup) :
    fields.insertionSort (fun a b => a.1 ≤ b.1) = others.insertionSort (fun a b => a.1 ≤ b.1) ↔
      ∀ f, f ∈ fields ↔ f ∈ others := by
  constructor
  · intro h f
    have hmem (l : List (String × Json)) :
        f ∈ l.insertionSort (fun a b => a.1 ≤ b.1) ↔ f ∈ l := List.mem_insertionSort _
    rw [← hmem fields, ← hmem others, h]
  · intro h
    have hperm : fields.Perm others :=
      (List.perm_ext_iff_of_nodup hfields.of_map hothers.of_map).mpr h
    have hsort (l : List (String × Json)) : (l.insertionSort (fun a b => a.1 ≤ b.1)).Perm l :=
      List.perm_insertionSort _ l
    have hsorted := ((hsort fields).trans hperm).trans (hsort others).symm
    have hpairwise (l : List (String × Json)) :
        (l.insertionSort (fun a b => a.1 ≤ b.1)).Pairwise (fun a b => a.1 ≤ b.1) :=
      haveI : Std.Total (fun a b : String × Json => a.1 ≤ b.1) := ⟨fun a b => le_total a.1 b.1⟩
      haveI : IsTrans (String × Json) (fun a b => a.1 ≤ b.1) := ⟨fun _ _ _ => le_trans⟩
      List.pairwise_insertionSort _ l
    refine hsorted.eq_of_pairwise (fun f g hf hg hle hge => ?_) (hpairwise fields)
      (hpairwise others)
    have hkey : f.1 = g.1 := le_antisymm hle hge
    have hmemf : (f.1, f.2) ∈ fields := (List.mem_insertionSort _).mp hf
    have hmemg : (f.1, g.2) ∈ fields := hkey ▸ (h g).mpr ((List.mem_insertionSort _).mp hg)
    rw [← lookup_eq_some_iff_mem hfields] at hmemf hmemg
    rw [hmemf, Option.some.injEq] at hmemg
    exact Prod.ext hkey hmemg

/-- Two dicts whose entries have their like in each other are encoded as the same fields. -/
theorem mem_canonicalFields_iff {entries others : List (Value × Value)}
    (hentries : ∀ e ∈ entries, isStr e.1 = true) (hothers : ∀ e ∈ others, isStr e.1 = true)
    (hnodup : (others.map Prod.fst).Nodup) :
    ((∀ e ∈ entries, ∃ w, (e.1, w) ∈ others ∧ canonical (toJson e.2) = canonical (toJson w)) ∧
        ∀ key ∈ others.map Prod.fst, key ∈ entries.map Prod.fst) ↔
      ∀ f, f ∈ canonicalFields (toFields entries) ↔ f ∈ canonicalFields (toFields others) := by
  constructor
  · intro ⟨hlike, hback⟩ ⟨s, c⟩
    rw [mem_toFields hentries, mem_toFields hothers]
    constructor
    · intro ⟨v, hv, hc⟩
      obtain ⟨w, hw, heq⟩ := hlike _ hv
      exact ⟨w, hw, heq ▸ hc⟩
    · intro ⟨w, hw, hc⟩
      obtain ⟨⟨key, v⟩, hv, hkey⟩ := List.mem_map.mp (hback _ (List.mem_map_of_mem hw))
      subst hkey
      obtain ⟨x, hx, heq⟩ := hlike _ hv
      have hxw : (Value.str s, x) = (Value.str s, w) := List.inj_on_of_nodup_map hnodup hx hw rfl
      rw [Prod.mk.injEq] at hxw
      exact ⟨v, hv, by rw [heq, hxw.2, hc]⟩
  · intro h
    constructor
    · intro ⟨key, v⟩ hv
      have hkey := hentries _ hv
      cases key with
      | str s =>
          obtain ⟨w, hw, hc⟩ := (mem_toFields hothers).mp
            ((h (s, canonical (toJson v))).mp ((mem_toFields hentries).mpr ⟨v, hv, rfl⟩))
          exact ⟨w, hw, hc.symm⟩
      | _ => simp [isStr] at hkey
    · intro key hmem
      obtain ⟨⟨key, w⟩, hw, rfl⟩ := List.mem_map.mp hmem
      have hkey := hothers _ hw
      cases key with
      | str s =>
          obtain ⟨v, hv, -⟩ := (mem_toFields hentries).mp
            ((h (s, canonical (toJson w))).mpr ((mem_toFields hothers).mpr ⟨w, hw, rfl⟩))
          exact List.mem_map.mpr ⟨_, hv, rfl⟩
      | _ => simp [isStr] at hkey

mutual
/-- Values are equal as JSON values when they have one canonical form. -/
theorem same_iff : ∀ {v w : Value}, stringKeys v = true → stringKeys w = true →
    Distinct v → Distinct w → (Same v w ↔ canonical (toJson v) = canonical (toJson w))
  | .none, w, _, _, _, _ => by cases w <;> simp [Same, toJson, canonical]
  | .bool _, w, _, _, _, _ => by cases w <;> simp [Same, toJson, canonical]
  | .int _, w, _, _, _, _ => by cases w <;> simp [Same, toJson, canonical]
  | .float _, w, _, _, _, _ => by cases w <;> simp [Same, toJson, canonical]
  | .nonFinite _, w, _, _, _, _ => by cases w <;> simp [Same, toJson, canonical]
  | .str _, w, _, _, _, _ => by cases w <;> simp [Same, toJson, canonical]
  | .list items, w, hv, hw, dv, dw => by
      cases w with
      | list others | tuple others =>
          simpa [Same, toJson, canonical] using sameItems_iff hv hw dv dw
      | _ => simp [Same, toJson, canonical]
  | .tuple items, w, hv, hw, dv, dw => by
      cases w with
      | list others | tuple others =>
          simpa [Same, toJson, canonical] using sameItems_iff hv hw dv dw
      | _ => simp [Same, toJson, canonical]
  | .dict entries, w, hv, hw, dv, dw => by
      cases w with
      | dict others =>
          simp only [stringKeys, Bool.and_eq_true, List.all_eq_true] at hv hw
          have hf := nodup_toFields hv.1 dv.1
          have ho := nodup_toFields hw.1 dw.1
          rw [Same, sameEntries_iff hv.2 hw.2 dv.2 dw.2, mem_canonicalFields_iff hv.1 hw.1 dw.1]
          simp only [toJson, canonical, Json.obj.injEq]
          rw [insertionSort_eq_iff (by rwa [map_fst_canonicalFields])
            (by rwa [map_fst_canonicalFields])]
      | _ => simp [Same, toJson, canonical]

theorem sameItems_iff : ∀ {items others : List Value}, stringKeysItems items = true →
    stringKeysItems others = true → DistinctItems items → DistinctItems others →
      (SameItems items others ↔
        canonicalItems (toItems items) = canonicalItems (toItems others))
  | [], others, _, _, _, _ => by cases others <;> simp [SameItems, toItems, canonicalItems]
  | v :: items, others, hv, hw, dv, dw => by
      cases others with
      | nil => simp [SameItems, toItems, canonicalItems]
      | cons w others =>
          simp only [stringKeysItems, Bool.and_eq_true] at hv hw
          rw [SameItems, same_iff hv.1 hw.1 dv.1 dw.1, sameItems_iff hv.2 hw.2 dv.2 dw.2]
          simp [toItems, canonicalItems]

theorem sameEntries_iff : ∀ {entries others : List (Value × Value)},
    stringKeysEntries entries = true → stringKeysEntries others = true →
      DistinctEntries entries → DistinctEntries others →
        (SameEntries entries others ↔ ∀ e ∈ entries, ∃ w, (e.1, w) ∈ others ∧
          canonical (toJson e.2) = canonical (toJson w))
  | [], others, _, _, _, _ => by simp [SameEntries]
  | (k, v) :: entries, others, hv, hw, dv, dw => by
      simp only [stringKeysEntries, Bool.and_eq_true] at hv
      rw [SameEntries, sameEntries_iff hv.2 hw dv.2 dw, List.forall_mem_cons]
      have hhead (w : Value) (hmem : (k, w) ∈ others) :
          Same v w ↔ canonical (toJson v) = canonical (toJson w) :=
        same_iff hv.1 (stringKeysEntries_iff.mp hw _ hmem) dv.1 (distinctEntries_iff.mp dw _ hmem)
      apply and_congr_left
      intro _
      apply exists_congr
      intro w
      apply and_congr_right
      intro hmem
      exact hhead w hmem
end

/-- Values have one canonical text when they are equal as JSON values. -/
theorem normalized_eq_iff {v w : Value} (hv : stringKeys v = true) (hw : stringKeys w = true)
    (dv : Distinct v) (dw : Distinct w) (fv : finite (toJson v) = true)
    (fw : finite (toJson w) = true) :
    normalized (toJson v) = normalized (toJson w) ↔ Same v w := by
  rw [same_iff hv hw dv dw]
  constructor
  · exact normalized_inj fv fw
  · intro h
    rw [normalized, normalized, h]

/-! ## Values read from JSON -/

mutual
theorem toJson_ofJson : ∀ v : Json, toJson (ofJson v) = v
  | .null | .bool _ | .int _ | .float _ | .nonFinite _ | .str _ => rfl
  | .arr items => congrArg Json.arr (toItems_ofItems items)
  | .obj fields => congrArg Json.obj (toFields_ofFields fields)
theorem toItems_ofItems : ∀ items : List Json, toItems (ofItems items) = items
  | [] => rfl
  | v :: items => by rw [ofItems, toItems, toJson_ofJson v, toItems_ofItems items]
theorem toFields_ofFields : ∀ fields : List (String × Json), toFields (ofFields fields) = fields
  | [] => rfl
  | (k, v) :: fields => by
      rw [ofFields, toFields, toJson_ofJson v, toFields_ofFields fields, keyText]
end

theorem isStr_ofFields (fields : List (String × Json)) :
    (ofFields fields).all (fun e => isStr e.1) = true := by
  induction fields with
  | nil => rfl
  | cons f fields ih => simpa [ofFields, isStr] using ih

mutual
theorem stringKeys_ofJson : ∀ v : Json, stringKeys (ofJson v) = true
  | .null | .bool _ | .int _ | .float _ | .nonFinite _ | .str _ => rfl
  | .arr items => stringKeysItems_ofItems items
  | .obj fields => by
      rw [ofJson, stringKeys, isStr_ofFields, stringKeysEntries_ofFields fields, Bool.and_self]
theorem stringKeysItems_ofItems : ∀ items : List Json, stringKeysItems (ofItems items) = true
  | [] => rfl
  | v :: items => by
      rw [ofItems, stringKeysItems, stringKeys_ofJson v, stringKeysItems_ofItems items,
        Bool.and_self]
theorem stringKeysEntries_ofFields :
    ∀ fields : List (String × Json), stringKeysEntries (ofFields fields) = true
  | [] => rfl
  | (_, v) :: fields => by
      rw [ofFields, stringKeysEntries, stringKeys_ofJson v, stringKeysEntries_ofFields fields,
        Bool.and_self]
end

end Value

/-- A value that can be built: no dict in it has one key twice. -/
structure PyValue where
  value : Value
  distinct : value.Distinct

end JsonText
