import Mathlib.Data.List.Sort

/-! # Sorting and filtering

Insertion sort is stable, so it does not matter whether elements are dropped before or after. -/

namespace StableSort

variable {α : Type*} (r : α → α → Prop) [DecidableRel r]

theorem filter_orderedInsert [IsTrans α r] (p : α → Bool) (a : α) (l : List α)
    (h : l.Pairwise r) :
    (l.orderedInsert r a).filter p =
      if p a then (l.filter p).orderedInsert r a else l.filter p := by
  induction l with
  | nil => cases hp : p a <;> simp [hp]
  | cons b l ih =>
    have htail := ih h.tail
    by_cases hab : r a b
    · rw [List.orderedInsert_cons_of_le _ _ hab, List.filter_cons]
      by_cases hp : p a = true
      · have hfirst (c : α) (hc : c ∈ (b :: l).filter p) : r a c := by
          have hmem := List.mem_of_mem_filter hc
          cases List.mem_cons.mp hmem with
          | inl heq => exact heq ▸ hab
          | inr hl => exact IsTrans.trans _ _ _ hab (List.rel_of_pairwise_cons h hl)
        rw [if_pos hp, if_pos hp]
        cases hrest : (b :: l).filter p with
        | nil => rfl
        | cons c rest =>
          rw [List.orderedInsert_cons_of_le _ _ (hfirst c (by simp [hrest]))]
      · rw [if_neg hp, if_neg hp]
    · rw [List.orderedInsert_of_not_le _ _ hab, List.filter_cons, htail]
      by_cases hp : p a = true
      · by_cases hb : p b = true
        · rw [if_pos hp, if_pos hp, if_pos hb, List.filter_cons_of_pos hb,
            List.orderedInsert_of_not_le _ _ hab]
        · rw [if_pos hp, if_pos hp, if_neg hb, List.filter_cons_of_neg hb]
      · rw [if_neg hp, if_neg hp, ← List.filter_cons]

theorem filter_insertionSort [IsTrans α r] [Std.Total r] (p : α → Bool) (l : List α) :
    (l.insertionSort r).filter p = (l.filter p).insertionSort r := by
  induction l with
  | nil => rfl
  | cons a l ih =>
    rw [List.insertionSort_cons, filter_orderedInsert r p a _ (List.pairwise_insertionSort r l), ih]
    by_cases hp : p a = true
    · rw [if_pos hp, List.filter_cons_of_pos hp, List.insertionSort_cons]
    · rw [if_neg hp, List.filter_cons_of_neg hp]

end StableSort
