import Dante.Library.JsonText
import Dante.Model.Contracts

/-! # Dictionaries -/

namespace Dante

open JsonText

variable {α : Type} {d other : Dict α} {key name : String} {value : α}

/-- No key stands twice, as in every Python dictionary. -/
def Dict.Distinct (d : Dict α) : Prop :=
  (d.map Prod.fst).Nodup

theorem Dict.Distinct.lookup (h : d.Distinct) : List.lookup name d = some value ↔ (name, value) ∈ d :=
  lookup_eq_some_iff_mem h

theorem Dict.lookup_set :
    (d.set key value).lookup name = if key = name then some value else d.lookup name := by
  induction d with
  | nil =>
      by_cases hkey : key = name
      · simp [Dict.set, hkey]
      · simp [Dict.set, List.lookup_cons, hkey, beq_eq_false_iff_ne.mpr (Ne.symm hkey)]
  | cons f rest ih =>
      obtain ⟨k, v⟩ := f
      unfold Dict.set
      by_cases hk : k = key
      · subst hk
        by_cases hname : k = name
        · simp [hname]
        · simp [List.lookup_cons, hname, beq_eq_false_iff_ne.mpr (Ne.symm hname)]
      · rw [if_neg hk, List.lookup_cons, List.lookup_cons, ih]
        by_cases hname : name = k
        · simp [hname, Ne.symm hk]
        · simp [beq_eq_false_iff_ne.mpr hname]

theorem Dict.keys_set :
    (d.set key value).map Prod.fst =
      if key ∈ d.map Prod.fst then d.map Prod.fst else d.map Prod.fst ++ [key] := by
  induction d with
  | nil => simp [Dict.set]
  | cons f rest ih =>
      obtain ⟨k, v⟩ := f
      unfold Dict.set
      by_cases hk : k = key
      · simp [hk]
      · rw [if_neg hk, List.map_cons, List.map_cons, ih]
        by_cases hmem : key ∈ rest.map Prod.fst
        · rw [if_pos hmem, if_pos (List.mem_cons_of_mem _ hmem)]
        · rw [if_neg hmem, if_neg (by simpa [Ne.symm hk] using hmem), List.cons_append]

theorem Dict.Distinct.set (h : d.Distinct) : (Dict.set d key value).Distinct := by
  unfold Dict.Distinct
  rw [Dict.keys_set]
  by_cases hmem : key ∈ d.map Prod.fst
  · rw [if_pos hmem]
    exact h
  · rw [if_neg hmem]
    exact List.nodup_append_comm.mp (List.nodup_cons.mpr ⟨hmem, h⟩)

theorem Dict.Distinct.pop (h : d.Distinct) : (Dict.pop d key).Distinct :=
  List.Nodup.sublist (List.Sublist.map _ List.filter_sublist) h

theorem Dict.lookup_pop :
    (d.pop key).lookup name = if key = name then none else d.lookup name := by
  induction d with
  | nil => simp [Dict.pop]
  | cons f rest ih =>
      obtain ⟨k, v⟩ := f
      unfold Dict.pop at ih ⊢
      by_cases hk : k = key
      · rw [List.filter_cons_of_neg (by simp [hk]), ih]
        by_cases hname : key = name
        · rw [if_pos hname, if_pos hname]
        · rw [if_neg hname, if_neg hname, List.lookup_cons,
            beq_eq_false_iff_ne.mpr fun h => hname (hk.symm.trans h.symm)]
      · rw [List.filter_cons_of_pos (by simp [hk]), List.lookup_cons, List.lookup_cons, ih]
        by_cases hname : name = k
        · simp [hname, Ne.symm hk]
        · simp [beq_eq_false_iff_ne.mpr hname]

theorem Dict.Distinct.update (h : d.Distinct) : (Dict.update d other).Distinct := by
  unfold Dict.update
  induction other generalizing d with
  | nil => exact h
  | cons f rest ih => exact ih h.set

/-- What the other dictionary has is taken from it. -/
theorem Dict.lookup_update (hother : other.Distinct) :
    (d.update other).lookup name = (other.lookup name).or (d.lookup name) := by
  induction other generalizing d with
  | nil => rfl
  | cons f rest ih =>
      obtain ⟨k, v⟩ := f
      obtain ⟨hk, hrest⟩ := List.nodup_cons.mp hother
      change ((Dict.set d k v).update rest).lookup name = _
      rw [ih hrest, Dict.lookup_set, List.lookup_cons]
      by_cases hname : name = k
      · have hnone : rest.lookup k = none := by
          rw [List.lookup_eq_none_iff]
          intro f hf
          rw [bne_iff_ne]
          intro hsame
          exact hk (List.mem_map.mpr ⟨f, hf, hsame.symm⟩)
        simp [hname, hnone]
      · simp [beq_eq_false_iff_ne.mpr hname, Ne.symm hname]

end Dante
