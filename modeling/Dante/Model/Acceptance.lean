import Dante.Model.Contracts
import Mathlib.Data.Finset.Union

/-! # Acceptance contracts and the privacy gate -/

namespace Dante

/-! ## Blank text -/

/-- The characters that `str.strip` removes. -/
def isSpace (c : Char) : Bool :=
  let n := c.toNat
  (9 ≤ n && n ≤ 13) || (28 ≤ n && n ≤ 32) || n == 0x85 || n == 0xA0 || n == 0x1680 ||
    (0x2000 ≤ n && n ≤ 0x200A) || n == 0x2028 || n == 0x2029 || n == 0x202F || n == 0x205F ||
    n == 0x3000

/-- `not value.strip()`. -/
def isBlank (value : String) : Bool :=
  value.toList.all isSpace

/-! ## Acceptance -/

/-- `ObservedAcceptance.merged`. -/
def ObservedAcceptance.merged (self other : ObservedAcceptance) : ObservedAcceptance where
  tools := self.tools ∪ other.tools
  artifacts := self.artifacts ∪ other.artifacts
  finalFields := self.finalFields.update other.finalFields

def sorted (names : Finset String) : List String :=
  names.sort (· ≤ ·)

/-- The fields with a value that is not blank. -/
def presentFields (fields : Dict String) : Finset String :=
  ((fields.filter (fun f => !isBlank f.2)).map Prod.fst).toFinset

/-- `DeterministicAcceptanceVerifier.verify`. -/
def verify (contract : AcceptanceContract) (observed : ObservedAcceptance) : AcceptanceResult :=
  let missingTools := contract.requiredTools \ observed.tools
  let missingArtifacts := contract.requiredArtifacts \ observed.artifacts
  let missingFields := contract.requiredFinalFields \ presentFields observed.finalFields
  { acceptanceComplete := missingTools = ∅ && missingArtifacts = ∅ && missingFields = ∅
    missingChecks := sorted missingTools
    missingArtifacts := sorted missingArtifacts
    missingFinalFields := sorted missingFields }

/-- `continuation_prompt`. -/
def continuationPrompt (result : AcceptanceResult) (known instructions : Dict String) : String :=
  let hint (name : String) := (instructions.lookup name).getD name
  let verified (name : String) :=
    match known.lookup name with
    | some value => if value = "" then "" else " (use this verified value: " ++ value ++ ")"
    | none => ""
  "\n".intercalate
    (["The primary action succeeded.", "The task is NOT complete.", "",
        "Complete only these missing acceptance requirements:"] ++
      result.missingChecks.map (fun name => "- tool/action: " ++ hint name) ++
      result.missingArtifacts.map (fun name => "- artifact: " ++ hint name) ++
      result.missingFinalFields.map
        (fun name => "- final field: " ++ hint name ++ verified name) ++
      ["", "Do not repeat completed work."])

theorem mem_presentFields {fields : Dict String} {name : String} :
    name ∈ presentFields fields ↔ ∃ value, (name, value) ∈ fields ∧ isBlank value = false := by
  simp [presentFields]

/-- A contract is met exactly when everything it requires was observed. -/
theorem verify_complete {contract : AcceptanceContract} {observed : ObservedAcceptance} :
    (verify contract observed).acceptanceComplete = true ↔
      contract.requiredTools ⊆ observed.tools ∧
      contract.requiredArtifacts ⊆ observed.artifacts ∧
      contract.requiredFinalFields ⊆ presentFields observed.finalFields := by
  simp [verify, Finset.sdiff_eq_empty_iff_subset, and_assoc]

/-! ## The privacy gate -/

variable [Platform]

/-- `PrivacyGate.classify`, the classification it decides on. -/
def classify (content : String) (declared : PrivacyClass) : PrivacyClass :=
  let detected :=
    if Platform.searchSecret content then .secret
    else if Platform.searchConfidential content then .confidential
    else declared
  if declared.rank < detected.rank then detected else declared

end Dante
