import Dante.Library.Json
import Mathlib.Tactic.Ring

/-! # The size of a JSON text

All that a spaced text has over the compact one are the blanks after its commas and colons. -/

namespace JsonText

/-- The bytes that the characters take in UTF-8. -/
def byteSize : List Char → ℕ
  | [] => 0
  | c :: cs => c.utf8Size + byteSize cs

@[simp] theorem byteSize_nil : byteSize [] = 0 := rfl

@[simp] theorem byteSize_cons (c : Char) (cs : List Char) :
    byteSize (c :: cs) = c.utf8Size + byteSize cs := rfl

@[simp] theorem byteSize_append (cs ds : List Char) :
    byteSize (cs ++ ds) = byteSize cs + byteSize ds := by
  induction cs with
  | nil => simp
  | cons c cs ih =>
      rw [List.cons_append, byteSize_cons, byteSize_cons, ih]
      omega

theorem utf8ByteSize_ofList (cs : List Char) : (String.ofList cs).utf8ByteSize = byteSize cs := by
  induction cs with
  | nil => simp
  | cons c cs ih =>
      rw [String.ofList_cons, String.utf8ByteSize_append, String.utf8ByteSize_singleton, ih]
      rfl

mutual
/-- The commas and colons between the parts of a value. -/
def separators : Json → ℕ
  | .arr [] => 0
  | .arr (v :: items) => separators v + separatorsItems items
  | .obj [] => 0
  | .obj ((_, v) :: fields) => 1 + separators v + separatorsFields fields
  | _ => 0
def separatorsItems : List Json → ℕ
  | [] => 0
  | v :: items => 1 + separators v + separatorsItems items
def separatorsFields : List (String × Json) → ℕ
  | [] => 0
  | (_, v) :: fields => 2 + separators v + separatorsFields fields
end

mutual
/-- Every comma and every colon adds one blank. -/
theorem byteSize_text (blank : List Char) : ∀ v : Json,
    byteSize (text blank v) = byteSize (text [] v) + separators v * byteSize blank
  | .null => by simp [text, separators]
  | .bool b => by cases b <;> simp [text, separators]
  | .int _ => by simp [text, separators]
  | .float _ => by simp [text, separators]
  | .nonFinite _ => by simp [text, separators]
  | .str _ => by simp [text, separators]
  | .arr [] => by simp [text, separators]
  | .arr (v :: items) => by
      simp only [text, separators, byteSize_cons, byteSize_append, byteSize_text blank v,
        byteSize_textItems blank items]
      ring
  | .obj [] => by simp [text, separators]
  | .obj ((k, v) :: fields) => by
      simp only [text, separators, byteSize_cons, byteSize_append, byteSize_nil,
        byteSize_text blank v, byteSize_textFields blank fields]
      ring
theorem byteSize_textItems (blank : List Char) : ∀ items : List Json,
    byteSize (textItems blank items) =
      byteSize (textItems [] items) + separatorsItems items * byteSize blank
  | [] => by simp [textItems, separatorsItems]
  | v :: items => by
      simp only [textItems, separatorsItems, byteSize_cons, byteSize_append, byteSize_nil,
        byteSize_text blank v, byteSize_textItems blank items]
      ring
theorem byteSize_textFields (blank : List Char) : ∀ fields : List (String × Json),
    byteSize (textFields blank fields) =
      byteSize (textFields [] fields) + separatorsFields fields * byteSize blank
  | [] => by simp [textFields, separatorsFields]
  | (k, v) :: fields => by
      simp only [textFields, separatorsFields, byteSize_cons, byteSize_append, byteSize_nil,
        byteSize_text blank v, byteSize_textFields blank fields]
      ring
end

end JsonText
