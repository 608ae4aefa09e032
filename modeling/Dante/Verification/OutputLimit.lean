import Dante.Library.JsonSize
import Dante.Verification.Outcomes

/-! # The output limit

An output is measured as it is received, and again after it has been parsed and encoded with a
blank after each comma and each colon. -/

namespace Dante

open JsonText Relational Concurrent

section Limits

variable [Platform]

/-- The value is within the limit even with a blank after each comma and each colon. -/
def Fits (limit : ℕ) (value : Json) : Prop :=
  byteSize (text [] value) + JsonText.separators value ≤ limit

omit [Platform] in
instance (limit : ℕ) (value : Json) : Decidable (Fits limit value) :=
  inferInstanceAs (Decidable (_ ≤ _))

theorem encodedOutcome_obj {limit : ℕ} {fields : Dict Json}
    (hok : fields.lookup "ok" = some (.bool true)) (hfinite : finite (.obj fields) = true) :
    encodedOutcome limit (.obj fields) =
      if Fits limit (.obj fields) then { status := .success, data := some fields }
      else .outputLimit := by
  have hblank : byteSize [' '] = 1 := rfl
  have hsize := byteSize_text [' '] (.obj fields)
  rw [hblank, Nat.mul_one] at hsize
  rw [encodedOutcome, if_pos hfinite, utf8ByteSize_ofList, hsize]
  by_cases hfits : Fits limit (.obj fields)
  · rw [if_neg (Nat.not_lt.mpr hfits), if_pos hfits]
    simp [hok, isTrue]
  · rw [if_pos (Nat.not_le.mp hfits), if_neg hfits]

/-- A text within the limit is accepted if its object fits, and else is over the limit. -/
theorem runOutcome_text {manifest : ToolManifest} {s : String} {fields : Dict Json}
    (hsize : s.utf8ByteSize ≤ manifest.outputLimitBytes)
    (hparse : Platform.loads s.toUTF8 = some (.obj fields))
    (hok : fields.lookup "ok" = some (.bool true)) (hfinite : finite (.obj fields) = true) :
    runOutcome manifest (.text s) =
      if Fits manifest.outputLimitBytes (.obj fields) then
        { status := .success, data := some fields }
      else .outputLimit := by
  rw [runOutcome, if_neg (Nat.not_lt.mpr hsize)]
  simp only [hparse]
  exact encodedOutcome_obj hok hfinite

/-- Nobody else is about, and handlers return the text in time. -/
def answeringText (s : String) : Setting ledgerMachine :=
  ⟨Eq, fun env _ => ∀ c fs, (env.handler c fs).1 = .text s⟩

/-- The step of the call has succeeded. -/
def Succeeded (w : World) (taskId : String) (operation : Except Exn String) : Prop :=
  ∃ key row, operation = .ok key ∧ w.stepUnder taskId key = some row ∧ row.state = .succeeded

/-- An output within the limit is accepted, and the step of the call then succeeds, exactly if it
fits when it is encoded again. -/
theorem output_accepted_iff {manifest : ToolManifest} {s : String} {fields : Dict Json}
    (hsize : s.utf8ByteSize ≤ manifest.outputLimitBytes)
    (hparse : Platform.loads s.toUTF8 = some (.obj fields))
    (hok : fields.lookup "ok" = some (.bool true)) (hfinite : finite (.obj fields) = true) :
    (runOutcome manifest (.text s) = { status := .success, data := some fields } ↔
      Fits manifest.outputLimitBytes (.obj fields)) ∧
    ∀ (before : System ledgerMachine) (broker : ToolBroker) (owner : Option Lease) (task : Task)
      (toolId : String) (arguments : Dict Json) (approvalId : Option String) (planHash : String)
      (idempotencyKey : Option String) (asked : List (Exchange Request.Reply Exn))
      (result : ToolResult) (w' : World), Reachable anyRun before →
      broker.manifest toolId = .ok manifest →
      Trail (answeringText s) (Programs.invoke broker owner task toolId arguments approvalId planHash
        idempotencyKey) before.snap.state asked (.ret result) w' → Started asked →
      (result.status = .success ∧
          Succeeded w' task.taskId (operationKey broker toolId arguments idempotencyKey) ↔
        Fits manifest.outputLimitBytes (.obj fields)) := by
  have houtcome := runOutcome_text hsize hparse hok hfinite
  have haccepted : (runOutcome manifest (.text s)).status = .success ↔
      Fits manifest.outputLimitBytes (.obj fields) := by
    rw [houtcome]
    split
    next hfits => exact iff_of_true rfl hfits
    next hfits => exact iff_of_false (by simp [ToolResult.outputLimit]) hfits
  constructor
  · rw [← haccepted]
    constructor
    · intro hsuccess
      rw [hsuccess]
    · intro hstatus
      rw [houtcome, if_pos (haccepted.mp hstatus)]
  · intro before broker owner task toolId arguments approvalId planHash idempotencyKey asked result
      w' hbefore hmanifest htrail hstarted
    have hS : Undisturbed (answeringText s) := fun _ _ hbetween => hbetween.symm
    obtain ⟨hrelayed, hagrees⟩ :=
      (invoke_ends hS broker owner task toolId arguments approvalId planHash idempotencyKey
        fun stepId => stepsFollow hbefore task.taskId stepId).returned htrail
    -- the handler that was started has returned the text
    have hstatus : (runOutcome manifest (.text s)).status = result.status := by
      obtain ⟨c, reply, hmem⟩ := hstarted
      obtain ⟨env, w, hadmits, hstatus⟩ := hrelayed manifest hmanifest c reply hmem
      rwa [hadmits c w.fs] at hstatus
    rw [← haccepted, hstatus]
    constructor
    · exact fun h => h.1
    · intro hsuccess
      obtain ⟨key, row, data, hkey, hrow, -, hstate, -⟩ := hagrees.succeeded hsuccess
      exact ⟨hsuccess, key, row, hkey, hrow, hstate⟩

end Limits

section Written

/-- What a compact encoder writes for `ok`. -/
def Sample.compact : String := "\x7b\"ok\":true\x7d"

local instance outputLimitWritten : Platform :=
  .reference [(Sample.compact, .obj [("ok", .bool true)])]

theorem Sample.compact_parses :
    Platform.loads Sample.compact.toUTF8 = some (.obj [("ok", .bool true)]) := by
  have htext : byteText Sample.compact.toUTF8 = Sample.compact := by decide +kernel
  change List.lookup (byteText Sample.compact.toUTF8) [(Sample.compact, _)] = _
  rw [htext, List.lookup_cons, beq_self_eq_true]

/-- A tool that may write so many bytes. -/
def Sample.limitedTo (limit : ℕ) : ToolManifest :=
  { manifest "write" "never" with outputLimitBytes := limit }

/-- A broker whose only tool is limited. -/
def Sample.limitedBroker (limit : ℕ) : ToolBroker :=
  ToolBroker.register ⟨[]⟩ (limitedTo limit) none (some ∅)

/-- The tool answers with the compact text. -/
def Sample.limitedAnswer (limit : ℕ) : List (Exchange Request.Reply Exn) × Prog ToolResult × World :=
  (Programs.invoke (limitedBroker limit) none task "write" [] none "plan" none).performed ledgerMachine
    { moment 0 "step" with handler := fun _ fs => (.text compact, fs) } 12 created.snap.state

def Sample.runs : Request → Bool
  | .runTool _ => true
  | _ => false

theorem output_accepted_iff_fitting : Fits 12 (.obj [("ok", .bool true)]) ∧
    ∃ result, (Sample.limitedAnswer 12).2.1 = .ret result ∧ result.status = .success ∧
      Succeeded (Sample.limitedAnswer 12).2.2 "task" (operationKey (Sample.limitedBroker 12) "write" [] none) := by
  have hfits : Fits 12 (.obj [("ok", .bool true)]) := by decide +kernel
  obtain ⟨result, hresult⟩ : ∃ result, (Sample.limitedAnswer 12).2.1.result? = some result :=
    Option.isSome_iff_exists.mp (by decide +kernel)
  have hstarted : Started (Sample.limitedAnswer 12).1 := by
    obtain ⟨x, hx, hcall⟩ : ∃ x ∈ (Sample.limitedAnswer 12).1, Sample.runs x.1 = true := by
      decide +kernel
    obtain ⟨r, reply⟩ := x
    cases r with
    | runTool c => exact ⟨c, reply, hx⟩
    | _ => cases hcall
  have htrail : Trail (answeringText Sample.compact)
      (Programs.invoke (Sample.limitedBroker 12) none Sample.task "write" [] none "plan" none)
      Sample.created.snap.state (Sample.limitedAnswer 12).1 (.ret result) (Sample.limitedAnswer 12).2.2 := by
    rw [← Program.eq_ret hresult]
    exact Trail.performed (fun _ => rfl) (fun _ _ _ => rfl) 12 _ _
  have hsize : Sample.compact.utf8ByteSize ≤ (Sample.limitedTo 12).outputLimitBytes := by
    decide +kernel
  have haccepted := (output_accepted_iff hsize Sample.compact_parses rfl (by decide +kernel)).2 _
    (Sample.limitedBroker 12) none Sample.task "write" [] none "plan" none _ result _ Sample.created_reachable rfl
    htrail hstarted
  obtain ⟨hstatus, hsucceeded⟩ := haccepted.mpr hfits
  exact ⟨hfits, result, Program.eq_ret hresult, hstatus, hsucceeded⟩

/-- Eleven bytes are refused under a limit of eleven bytes, and the step is left uncertain. -/
theorem compact_output_refused : Sample.compact.utf8ByteSize ≤ 11 ∧
    Platform.loads Sample.compact.toUTF8 = some (.obj [("ok", .bool true)]) ∧
    runOutcome (Sample.limitedTo 11) (.text Sample.compact) = .outputLimit ∧
    ∃ row ∈ (Sample.limitedAnswer 11).2.2.db.stepNamed "task" "step", row.state = .uncertain := by
  have hrefused : ¬Fits (Sample.limitedTo 11).outputLimitBytes (.obj [("ok", .bool true)]) := by
    decide +kernel
  have hsize : Sample.compact.utf8ByteSize ≤ (Sample.limitedTo 11).outputLimitBytes := by
    decide +kernel
  refine ⟨hsize, Sample.compact_parses, ?_, by decide +kernel⟩
  rw [runOutcome_text hsize Sample.compact_parses rfl (by decide +kernel), if_neg hrefused]

end Written

end Dante
