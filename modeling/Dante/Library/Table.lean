import Mathlib.Data.List.Pairwise
import Mathlib.Tactic.Common

/-! # Tables with uniqueness constraints

A table is a list of rows, in insertion order, no two of which clash on their key
columns. Updates leave the key columns alone, so no table ever needs repair. -/

namespace Relational

/-- The key columns of a row type, and when two keys violate a constraint. -/
class Row (ρ : Type) where
  Key : Type
  key : ρ → Key
  clash : Key → Key → Bool

variable {ρ : Type} [Row ρ]

/-- Two rows violate a uniqueness constraint. -/
def clashes (a b : ρ) : Bool :=
  Row.clash (Row.key a) (Row.key b)

structure Table (ρ : Type) [Row ρ] where
  rows : List ρ
  unique : rows.Pairwise (fun a b => clashes a b = false)

/-- A predicate on key columns that at most one row of any table satisfies. -/
def Determines (p : ρ → Bool) : Prop :=
  ∀ a b : ρ, p a = true → p b = true → clashes a b = true

/-- An update that leaves the key columns alone. -/
abbrev KeepsKey (f : ρ → ρ) : Prop :=
  ∀ r, Row.key (f r) = Row.key r

namespace Table

variable {t t' : Table ρ} {p q : ρ → Bool} {f : ρ → ρ} {r : ρ}

def empty : Table ρ :=
  ⟨[], List.Pairwise.nil⟩

def find (t : Table ρ) (p : ρ → Bool) : Option ρ :=
  t.rows.find? p

/-- The number of rows that satisfy `p`. -/
def count (t : Table ρ) (p : ρ → Bool) : ℕ :=
  t.rows.countP p

/-- Append a row, unless it clashes with a stored one. -/
def insert (t : Table ρ) (r : ρ) : Option (Table ρ) :=
  if h : ∀ a ∈ t.rows, clashes a r = false then
    some ⟨t.rows ++ [r], List.pairwise_append.mpr
      ⟨t.unique, List.pairwise_singleton _ _, fun a ha b hb => by
        rw [List.mem_singleton.mp hb]
        exact h a ha⟩⟩
  else none

/-- Apply `f` to every row that satisfies `p`. -/
def update (t : Table ρ) (p : ρ → Bool) (f : ρ → ρ) (hf : KeepsKey f) : Table ρ where
  rows := t.rows.map (fun r => if p r then f r else r)
  unique := by
    have hkey (r : ρ) : Row.key (if p r then f r else r) = Row.key r := by
      split
      · exact hf r
      · rfl
    rw [List.pairwise_map]
    refine t.unique.imp ?_
    intro a b h
    simpa only [clashes, hkey] using h

@[simp] theorem rows_empty : (empty : Table ρ).rows = [] := rfl

@[simp] theorem find_empty : (empty : Table ρ).find p = none := rfl

theorem mem_of_find (h : t.find p = some r) : r ∈ t.rows :=
  List.mem_of_find?_eq_some h

theorem pred_of_find (h : t.find p = some r) : p r = true :=
  List.find?_some h

theorem find_eq_none_iff : t.find p = none ↔ ∀ r ∈ t.rows, p r = false := by
  simp [find, List.find?_eq_none]

theorem find_of_count (h : t.count p = 1) : ∃ r, t.find p = some r := by
  have hpos : 0 < t.rows.countP p := by
    rw [count] at h
    omega
  obtain ⟨r, hr, hp⟩ := List.countP_pos_iff.mp hpos
  exact Option.isSome_iff_exists.mp (List.find?_isSome.mpr ⟨r, hr, hp⟩)

theorem eq_of_determines (hp : Determines p) {a b : ρ} (ha : a ∈ t.rows) (hb : b ∈ t.rows)
    (hpa : p a = true) (hpb : p b = true) : a = b := by
  have key : ∀ l : List ρ, l.Pairwise (fun a b => clashes a b = false) →
      a ∈ l → b ∈ l → a = b := by
    intro l hl hal hbl
    induction l with
    | nil => simp at hal
    | cons c l ih =>
        have hc := List.pairwise_cons.mp hl
        rcases List.mem_cons.mp hal with hac | hal' <;> rcases List.mem_cons.mp hbl with hbc | hbl'
        · exact hac.trans hbc.symm
        · have hab := hc.1 b hbl'
          rw [← hac, hp a b hpa hpb] at hab
          exact absurd hab (by simp)
        · have hba := hc.1 a hal'
          rw [← hbc, hp b a hpb hpa] at hba
          exact absurd hba (by simp)
        · exact ih hc.2 hal' hbl'
  exact key t.rows t.unique ha hb

/-- A query on key columns finds exactly the row that satisfies it. -/
theorem find_eq_some_iff (hp : Determines p) : t.find p = some r ↔ r ∈ t.rows ∧ p r = true := by
  refine ⟨fun h => ⟨mem_of_find h, pred_of_find h⟩, ?_⟩
  rintro ⟨hmem, hr⟩
  cases hfind : t.find p with
  | none => simp [find_eq_none_iff.mp hfind r hmem] at hr
  | some s => rw [eq_of_determines hp (mem_of_find hfind) hmem (pred_of_find hfind) hr]

theorem count_of_find (hp : Determines p) (h : t.find p = some r) : t.count p = 1 := by
  have hpos : 0 < t.rows.countP p := List.countP_pos_iff.mpr ⟨r, mem_of_find h, pred_of_find h⟩
  have hunique := t.unique.filter p
  rw [count, List.countP_eq_length_filter] at *
  cases hrows : t.rows.filter p with
  | nil => simp [hrows] at hpos
  | cons a rest =>
      cases rest with
      | nil => rfl
      | cons b rest =>
          have hmem (c : ρ) (hc : c ∈ [a, b]) : p c = true := by
            have hfilter : c ∈ t.rows.filter p := by
              rw [hrows]
              exact List.mem_of_mem_take (i := 2) hc
            exact (List.mem_filter.mp hfilter).2
          rw [hrows, List.pairwise_cons] at hunique
          have hclash := hp a b (hmem a (by simp)) (hmem b (by simp))
          rw [hunique.1 b (by simp)] at hclash
          cases hclash

theorem insert_eq_some_iff :
    t.insert r = some t' ↔ (∀ a ∈ t.rows, clashes a r = false) ∧ t'.rows = t.rows ++ [r] := by
  unfold insert
  by_cases h : ∀ a ∈ t.rows, clashes a r = false
  · rw [dif_pos h, Option.some.injEq]
    constructor
    · intro ht
      exact ⟨h, by rw [← ht]⟩
    · rintro ⟨-, hrows⟩
      cases t'
      simp only [mk.injEq]
      exact hrows.symm
  · rw [dif_neg h]
    simp [h]

theorem rows_insert (h : t.insert r = some t') : t'.rows = t.rows ++ [r] :=
  (insert_eq_some_iff.mp h).2

theorem find_insert (h : t.insert r = some t') :
    t'.find p = (t.find p).or (if p r then some r else none) := by
  simp only [find, rows_insert h, List.find?_append, List.find?_singleton]

@[simp] theorem rows_update (hf : KeepsKey f) :
    (t.update p f hf).rows = t.rows.map (fun r => if p r then f r else r) := rfl

theorem find_update (hf : KeepsKey f) (hq : ∀ r, q (f r) = q r) :
    (t.update p f hf).find q = (t.find q).map (fun r => if p r then f r else r) := by
  have hcomp : (q ∘ fun r => if p r then f r else r) = q := by
    funext r
    simp only [Function.comp]
    split <;> simp [hq]
  simp only [find, rows_update, List.find?_map, hcomp]

/-- An update of one row leaves the queries that do not select it unchanged. -/
theorem find_update_of_ne (hf : KeepsKey f) (hq : ∀ r, q (f r) = q r)
    (hne : ∀ r, q r = true → p r = false) : (t.update p f hf).find q = t.find q := by
  rw [find_update hf hq]
  cases h : t.find q with
  | none => rfl
  | some r => simp [hne r (pred_of_find h)]

end Table

/-! ## Tables with a primary key -/

/-- Rows whose only constraint is a primary key. -/
class Keyed (ρ : Type) (κ : outParam Type) where
  primary : ρ → κ

variable {κ : Type} [DecidableEq κ]

instance (priority := low) Keyed.row {ρ : Type} [Keyed ρ κ] : Row ρ where
  Key := κ
  key := Keyed.primary
  clash a b := a == b

variable {σ : Type} [Keyed σ κ]

theorem keepsKey_of_primary {f : σ → σ} (hf : ∀ r, Keyed.primary (f r) = Keyed.primary r) :
    KeepsKey f :=
  fun r => hf r

namespace Table

variable {t t' : Table σ} {k l : κ} {r a b : σ}

/-- The row with primary key `k`. -/
def get? (t : Table σ) (k : κ) : Option σ :=
  t.find (fun r => Keyed.primary r == k)

/-- Apply `f` to the row with primary key `k`. -/
def modify (t : Table σ) (k : κ) (f : σ → σ)
    (hf : ∀ r, Keyed.primary (f r) = Keyed.primary r) : Table σ :=
  t.update (fun r => Keyed.primary r == k) f (keepsKey_of_primary hf)

theorem primary_determines (k : κ) : Determines (fun r : σ => Keyed.primary r == k) := by
  intro a b ha hb
  simp only [beq_iff_eq] at ha hb
  simp [clashes, Row.clash, Row.key, ha, hb]

@[simp] theorem get?_empty : (empty : Table σ).get? k = none := rfl

theorem mem_of_get? (h : t.get? k = some r) : r ∈ t.rows :=
  mem_of_find h

theorem primary_of_get? (h : t.get? k = some r) : Keyed.primary r = k := by
  simpa using pred_of_find h

theorem get?_eq_some_iff : t.get? k = some r ↔ r ∈ t.rows ∧ Keyed.primary r = k := by
  rw [get?, find_eq_some_iff (primary_determines k)]
  simp

theorem get?_eq_none_iff : t.get? k = none ↔ ∀ r ∈ t.rows, Keyed.primary r ≠ k := by
  rw [get?, find_eq_none_iff]
  simp

/-- A new row is found under its own key, and changes no other lookup. -/
theorem get?_insert (h : t.insert r = some t') :
    t'.get? k = if Keyed.primary r = k then some r else t.get? k := by
  have hfree := (insert_eq_some_iff.mp h).1
  by_cases hk : Keyed.primary r = k
  · have hnone : t.get? k = none := by
      rw [get?_eq_none_iff]
      intro a ha hak
      have := hfree a ha
      simp [clashes, Row.clash, Row.key, hak, hk] at this
    rw [get?, find_insert h, ← get?, hnone]
    simp [hk]
  · rw [get?, find_insert h]
    simp [hk, get?]

/-- Insertion fails exactly when the key is taken. -/
theorem insert_isSome : (t.insert r).isSome ↔ t.get? (Keyed.primary r) = none := by
  rw [get?_eq_none_iff]
  unfold insert
  split
  next h =>
    simp only [Option.isSome_some, true_iff]
    intro a ha hk
    have := h a ha
    simp [clashes, Row.clash, Row.key, hk] at this
  next h =>
    simp only [Option.isSome_none, Bool.false_eq_true, false_iff]
    intro hall
    refine h fun a ha => ?_
    simpa [clashes, Row.clash, Row.key] using hall a ha

theorem get?_modify {f : σ → σ} (hf : ∀ r, Keyed.primary (f r) = Keyed.primary r) :
    (t.modify k f hf).get? l = if l = k then (t.get? l).map f else t.get? l := by
  rw [modify, get?, find_update (keepsKey_of_primary hf) (fun r => by rw [hf r]), ← get?]
  cases h : t.get? l with
  | none => simp
  | some r =>
      have hr := primary_of_get? h
      by_cases hlk : l = k <;> simp [hr, hlk]

/-- Insert a row in the place of one with the same primary key. -/
def put (t : Table σ) (r : σ) : Table σ where
  rows := t.rows.filter (fun a => Keyed.primary a ≠ Keyed.primary r) ++ [r]
  unique := by
    refine List.pairwise_append.mpr ⟨t.unique.filter _, List.pairwise_singleton _ _, ?_⟩
    intro a ha b hb
    have hne := (List.mem_filter.mp ha).2
    rw [List.mem_singleton.mp hb]
    simpa [clashes, Row.clash, Row.key] using hne

theorem get?_put : (t.put r).get? k = if Keyed.primary r = k then some r else t.get? k := by
  have hmem (a : σ) : a ∈ (t.put r).rows ↔
      a ∈ t.rows ∧ Keyed.primary a ≠ Keyed.primary r ∨ a = r := by
    simp [put]
  by_cases hk : Keyed.primary r = k
  · rw [if_pos hk, get?_eq_some_iff, hmem]
    exact ⟨.inr rfl, hk⟩
  · rw [if_neg hk]
    cases h : t.get? k with
    | none =>
        rw [get?_eq_none_iff] at h ⊢
        intro a ha
        rcases (hmem a).mp ha with ⟨hold, -⟩ | rfl
        · exact h a hold
        · exact hk
    | some a =>
        obtain ⟨hrow, hak⟩ := get?_eq_some_iff.mp h
        rw [get?_eq_some_iff, hmem]
        exact ⟨.inl ⟨hrow, fun heq => hk (heq ▸ hak)⟩, hak⟩

/-- Insert a row, unless one with the same primary key is there. -/
def ensure (t : Table σ) (r : σ) : Table σ :=
  (t.insert r).getD t

theorem get?_ensure : (t.ensure r).get? k =
    if Keyed.primary r = k then some ((t.get? k).getD r) else t.get? k := by
  unfold ensure
  cases h : t.insert r with
  | none =>
      have htaken : t.get? (Keyed.primary r) ≠ none := by
        intro hnone
        have hinserted := insert_isSome.mpr hnone
        rw [h] at hinserted
        cases hinserted
      by_cases hk : Keyed.primary r = k
      · subst hk
        obtain ⟨a, ha⟩ := Option.ne_none_iff_exists'.mp htaken
        simp [ha]
      · simp [hk]
  | some t' =>
      rw [Option.getD_some, get?_insert h]
      by_cases hk : Keyed.primary r = k
      · subst hk
        have hfree := insert_isSome.mp (h ▸ rfl : (t.insert r).isSome = true)
        simp [hfree]
      · simp [hk]

@[simp] theorem rows_modify {f : σ → σ} (hf : ∀ r, Keyed.primary (f r) = Keyed.primary r) :
    (t.modify k f hf).rows = t.rows.map (fun r => if Keyed.primary r == k then f r else r) := rfl

end Table

/-! ## Tables whose key may be null -/

/-- Rows whose only constraint is a primary key that may be null. No two nulls clash. -/
class NullKeyed (ρ : Type) (κ : outParam Type) where
  primary? : ρ → Option κ

instance (priority := low) NullKeyed.row {ρ : Type} [NullKeyed ρ κ] : Row ρ where
  Key := Option κ
  key := NullKeyed.primary?
  clash a b := a == b && a.isSome

namespace Table

variable {ν : Type} [NullKeyed ν κ] {t t' : Table ν} {k l : κ} {r : ν} {p : ν → Bool}

/-- The row has primary key `k`. -/
def hasKey (k : κ) (r : ν) : Bool :=
  NullKeyed.primary? r == some k

theorem hasKey_determines (k : κ) : Determines (hasKey k : ν → Bool) := by
  intro a b ha hb
  simp only [hasKey, beq_iff_eq] at ha hb
  simp [clashes, Row.clash, Row.key, ha, hb]

/-- The row with primary key `k`. -/
def at? (t : Table ν) (k : κ) : Option ν :=
  t.find (hasKey k)

/-- Apply `f` to the row with primary key `k`. -/
def amend (t : Table ν) (k : κ) (f : ν → ν)
    (hf : ∀ r, NullKeyed.primary? (f r) = NullKeyed.primary? r) : Table ν :=
  t.update (hasKey k) f fun r => hf r

theorem hasKey_of_at? (h : t.at? k = some r) : hasKey k r = true :=
  pred_of_find h

theorem at?_amend {f : ν → ν} (hf : ∀ r, NullKeyed.primary? (f r) = NullKeyed.primary? r) :
    (t.amend k f hf).at? l = if l = k then (t.at? l).map f else t.at? l := by
  have hkey (r : ν) : hasKey l (f r) = hasKey l r := by
    rw [hasKey, hasKey, hf r]
  rw [amend, at?, find_update (fun r => hf r) hkey, ← at?]
  cases h : t.at? l with
  | none => simp
  | some r =>
      have hr : NullKeyed.primary? r = some l := by simpa [hasKey] using hasKey_of_at? h
      by_cases hlk : l = k <;> simp [hasKey, hr, hlk]

theorem at?_insert (h : t.insert r = some t') :
    t'.at? k = (t.at? k).or (if hasKey k r then some r else none) :=
  find_insert h

/-- The table without the row with primary key `k`. -/
def erase (t : Table ν) (k : κ) : Table ν :=
  ⟨t.rows.filter (fun r => !hasKey k r), t.unique.filter _⟩

theorem at?_erase : (t.erase k).at? l = if l = k then none else t.at? l := by
  by_cases hlk : l = k
  · subst hlk
    rw [if_pos rfl, at?, find_eq_none_iff]
    intro r hr
    simpa using (List.mem_filter.mp hr).2
  · rw [if_neg hlk, at?, at?, find, find, erase, List.find?_filter]
    congr 1
    funext r
    by_cases hl : hasKey l r = true
    · have hk : hasKey k r = false := by
        simp only [hasKey, beq_iff_eq] at hl
        simp [hasKey, hl, hlk]
      simp [hl, hk]
    · simp [hl]

/-- A row can be inserted in the place of the erased one. -/
theorem insert_erase (hr : NullKeyed.primary? r = some k) :
    ∃ t', (t.erase k).insert r = some t' := by
  have hfree : ∀ a ∈ (t.erase k).rows, clashes a r = false := by
    intro a ha
    have hkey := (List.mem_filter.mp ha).2
    rw [Bool.not_eq_true', hasKey, beq_eq_false_iff_ne] at hkey
    simp [clashes, Row.clash, Row.key, hr, hkey]
  rw [insert, dif_pos hfree]
  exact ⟨_, rfl⟩

/-- Insert rows one after the other. -/
def insertAll (t : Table ν) (rows : List ν) : Option (Table ν) :=
  rows.foldlM insert t

/-- Rows that clash neither with one another nor with the table can all be inserted. -/
theorem insertAll_of_unique {rows : List ν}
    (h : (t.rows ++ rows).Pairwise (fun a b => clashes a b = false)) :
    t.insertAll rows = some ⟨t.rows ++ rows, h⟩ := by
  induction rows generalizing t with
  | nil => simp [insertAll]
  | cons r rows ih =>
      have hfree : ∀ a ∈ t.rows, clashes a r = false := fun a ha =>
        (List.pairwise_append.mp h).2.2 a ha r List.mem_cons_self
      obtain ⟨t', ht'⟩ : ∃ t', t.insert r = some t' := by
        rw [insert, dif_pos hfree]
        exact ⟨_, rfl⟩
      have hrows := rows_insert ht'
      have hsplit : t'.rows ++ rows = t.rows ++ r :: rows := by
        rw [hrows, List.append_assoc, List.singleton_append]
      have hall := ih (t := t') (hsplit ▸ h)
      rw [insertAll, List.foldlM_cons, ht', Option.bind_eq_bind, Option.bind_some]
      rw [insertAll] at hall
      simp only [hall, hsplit]

/-- Of the rows with a key only the one found counts. -/
theorem count_at? (h : t.at? k = some r) :
    t.count (fun a => hasKey k a && p a) = if p r then 1 else 0 := by
  have hmem := mem_of_find h
  by_cases hp : p r = true
  · rw [if_pos hp]
    have hdetermines : Determines (fun a : ν => hasKey k a && p a) := by
      intro a b ha hb
      rw [Bool.and_eq_true] at ha hb
      exact hasKey_determines k a b ha.1 hb.1
    have hfind : t.find (fun a => hasKey k a && p a) = some r :=
      (find_eq_some_iff hdetermines).mpr ⟨hmem, by rw [hasKey_of_at? h, hp]; rfl⟩
    exact count_of_find hdetermines hfind
  · rw [if_neg hp, count, List.countP_eq_zero]
    intro a ha hboth
    rw [Bool.and_eq_true] at hboth
    rw [eq_of_determines (hasKey_determines k) ha hmem hboth.1 (hasKey_of_at? h)] at hboth
    exact hp hboth.2

end Table

end Relational
