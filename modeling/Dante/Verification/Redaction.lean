import Dante.Model.Telemetry
import Dante.Verification.Dictionaries

/-! # What redaction hides

A secret is a scalar behind a sensitive key. `redact` stops at a tuple while the writer of the
line goes on into it, so the ways to a secret are told apart by what comes first. -/

namespace Dante

open JsonText JsonText.Value

section Redaction

variable [Printable]

/-- A sensitive key stands on the way. -/
def behindSecret : List Step → Bool
  | [] => false
  | .key k :: path => isSensitive k || behindSecret path
  | .item _ :: path => behindSecret path
  | .slot _ :: path => behindSecret path

/-- The way ends at the first sensitive key on it, with no tuple before. -/
def isReplaced : List Step → Bool
  | [] => false
  | .key k :: path => if isSensitive k then path.isEmpty else isReplaced path
  | .item _ :: path => isReplaced path
  | .slot _ :: _ => false

/-- No sensitive key stands in the value. -/
def Clean (v : Value) : Prop :=
  ∀ path x, At v path x → behindSecret path = false

mutual
/-- Every key that redaction leaves is one that `json.dumps` takes. -/
def writable : Value → Bool
  | .list items => writableItems items
  | .tuple items => encodableItems items
  | .dict entries => writableEntries entries
  | _ => true
def writableItems : List Value → Bool
  | [] => true
  | v :: items => writable v && writableItems items
def writableEntries : List (Value × Value) → Bool
  | [] => true
  | (k, v) :: entries => isScalar k && (isSensitive k || writable v) && writableEntries entries
end

variable {v w x : Value} {k : Value} {path : List Step} {items : List Value}
  {entries : List (Value × Value)} {d : Dict Value}

/-! ## Redaction twice -/

mutual
theorem redact_redact : ∀ v : Value, redact (redact v) = redact v
  | .none | .bool _ | .int _ | .float _ | .nonFinite _ | .str _ | .tuple _ => rfl
  | .list items => congrArg Value.list (redactItems_redactItems items)
  | .dict entries => congrArg Value.dict (redactEntries_redactEntries entries)
theorem redactItems_redactItems :
    ∀ items : List Value, redactItems (redactItems items) = redactItems items
  | [] => rfl
  | v :: items => by
      rw [redactItems, redactItems, redact_redact v, redactItems_redactItems items]
theorem redactEntries_redactEntries :
    ∀ entries : List (Value × Value), redactEntries (redactEntries entries) = redactEntries entries
  | [] => rfl
  | (k, v) :: entries => by
      rw [redactEntries, redactEntries, redactEntries_redactEntries entries]
      by_cases hk : isSensitive k = true
      · rw [if_pos hk, if_pos hk]
      · rw [if_neg hk, if_neg hk, redact_redact v]
end

/-! ## What is kept -/

theorem Clean.of_at (h : Clean v) (hat : At v path w) : Clean w := by
  intro way x hx
  have hway : At v (path ++ way) x := by
    clear h
    induction hat with
    | here => exact hx
    | key hmem _ ih => exact .key hmem (ih hx)
    | item hget _ ih => exact .item hget (ih hx)
    | slot hget _ ih => exact .slot hget (ih hx)
  have hboth := h _ _ hway
  clear hway hat
  induction path with
  | nil => exact hboth
  | cons s path ih =>
      cases s <;> simp_all [behindSecret]

theorem Clean.entry (h : Clean (.dict entries)) (hmem : (k, w) ∈ entries) :
    isSensitive k = false ∧ Clean w := by
  have hat : At (.dict entries) [.key k] w := .key hmem .here
  exact ⟨by simpa [behindSecret] using h _ _ hat, h.of_at hat⟩

mutual
/-- A value with no sensitive key in it is left as it is. -/
theorem Clean.redact_eq : ∀ {v : Value}, Clean v → redact v = v
  | .none, _ | .bool _, _ | .int _, _ | .float _, _ | .nonFinite _, _ | .str _, _ => rfl
  | .tuple _, _ => rfl
  | .list items, h => by
      rw [redact, redactItems_of_clean]
      intro w hw
      obtain ⟨i, hi⟩ := List.mem_iff_getElem?.mp hw
      exact h.of_at (.item hi .here)
  | .dict entries, h => by
      rw [redact, redactEntries_of_clean]
      intro e he
      exact h.entry he
theorem redactItems_of_clean :
    ∀ {items : List Value}, (∀ w ∈ items, Clean w) → redactItems items = items
  | [], _ => rfl
  | v :: items, h => by
      rw [redactItems, (h v List.mem_cons_self).redact_eq,
        redactItems_of_clean fun w hw => h w (List.mem_cons_of_mem v hw)]
theorem redactEntries_of_clean :
    ∀ {entries : List (Value × Value)},
      (∀ e ∈ entries, isSensitive e.1 = false ∧ Clean e.2) → redactEntries entries = entries
  | [], _ => rfl
  | (k, v) :: entries, h => by
      have hhead := h (k, v) List.mem_cons_self
      rw [redactEntries, hhead.2.redact_eq, if_neg (by simp [hhead.1]),
        redactEntries_of_clean fun e he => h e (List.mem_cons_of_mem (k, v) he)]
end

theorem behindSecret_of_isReplaced (h : isReplaced path = true) : behindSecret path = true := by
  induction path with
  | nil => cases h
  | cons s path ih =>
      cases s with
      | key k =>
          by_cases hk : isSensitive k = true
          · simp [behindSecret, hk]
          · simp [behindSecret, ih (by simpa [isReplaced, hk] using h)]
      | item => exact ih h
      | slot => cases h

mutual
theorem encodable_redact : ∀ v : Value, (redact v).encodable = writable v
  | .none | .bool _ | .int _ | .float _ | .nonFinite _ | .str _ | .tuple _ => rfl
  | .list items => encodableItems_redactItems items
  | .dict entries => encodableEntries_redactEntries entries
theorem encodableItems_redactItems :
    ∀ items : List Value, encodableItems (redactItems items) = writableItems items
  | [] => rfl
  | v :: items => by
      rw [redactItems, encodableItems, writableItems, encodable_redact v,
        encodableItems_redactItems items]
theorem encodableEntries_redactEntries :
    ∀ entries : List (Value × Value),
      encodableEntries (redactEntries entries) = writableEntries entries
  | [] => rfl
  | (k, v) :: entries => by
      rw [redactEntries, encodableEntries, writableEntries, encodableEntries_redactEntries entries]
      by_cases hk : isSensitive k = true
      · rw [if_pos hk, hk]
        rfl
      · rw [if_neg hk, encodable_redact v, Bool.not_eq_true _ |>.mp hk, Bool.false_or]
end

variable {timestamp event : String} {context : Option TraceContext}

variable {metadata : Metadata}

end Redaction

section Counterexample

local instance printable : Printable := ⟨fun _ => true⟩

end Counterexample

end Dante
