import Dante.Library.PyPlaces
import Dante.Library.PyRepr
import Dante.Model.SecretPattern

/-! # Audit lines

What an audit record keeps of the metadata it is given, and the line that is written. -/

namespace Dante

open JsonText Regex

/-- `_SENSITIVE`. -/
def sensitivePattern : Pattern :=
  .alt (literal "secret") (.alt (literal "token") (.alt (literal "password")
    (.alt (literal "authorization")
      (.seq (literal "api") (.seq (.optional (.char joint)) (literal "key"))))))

/-- `_SENSITIVE.search(text)`. The pattern looks at no word boundary. -/
def searchSensitive (text : List Char) : Bool :=
  found ⟨fun _ => false, fun _ => false⟩ sensitivePattern false text

variable [Printable]

def isSensitive (key : Value) : Bool :=
  searchSensitive key.toText

def redacted : Value := .str "[REDACTED]"

mutual
/-- Every container but a dict and a list is returned as it is. -/
def redact : Value → Value
  | .dict entries => .dict (redactEntries entries)
  | .list items => .list (redactItems items)
  | v => v
def redactItems : List Value → List Value
  | [] => []
  | v :: items => redact v :: redactItems items
def redactEntries : List (Value × Value) → List (Value × Value)
  | [] => []
  | (key, v) :: entries =>
      (key, if isSensitive key then redacted else redact v) :: redactEntries entries
end

structure TraceContext where
  requestId : String
  taskId : String
  traceId : String
  correlationId : String

/-- Keyword arguments. -/
structure Metadata where
  fields : Dict Value
  distinct : (fields.map Prod.fst).Nodup

/-- A dictionary with string keys as a value. -/
def asValue (d : Dict Value) : Value :=
  .dict (d.map fun f => (.str f.1, f.2))

/-- `redact(metadata)`. -/
def redactFields (d : Dict Value) : Dict Value :=
  d.map fun f => (f.1, if isSensitive (.str f.1) then redacted else redact f.2)

/-- The fields of a record that are not metadata. -/
def ownFields (timestamp event : String) (context : Option TraceContext) : Dict Value :=
  [("timestamp_utc", .str timestamp), ("event", .str event)] ++
    match context with
    | none => []
    | some context =>
        [("request_id", .str context.requestId), ("task_id", .str context.taskId),
          ("trace_id", .str context.traceId), ("correlation_id", .str context.correlationId)]

/-- The record of an event with the metadata as it was given. -/
def plainRecord (timestamp event : String) (context : Option TraceContext)
    (metadata : Dict Value) : Value :=
  asValue ((ownFields timestamp event context).update metadata)

/-- What a call of `JsonlAudit.write` appends to the file. -/
structure AuditLine where
  document : Json

def AuditLine.chars (line : AuditLine) : List Char :=
  text [] line.document ++ ['\n']

/-- `json.dumps` refuses a record with a key that is no scalar, and nothing is written. -/
def dumps (record : Value) : Option AuditLine :=
  if record.encodable then some ⟨record.toJson⟩ else none

/-- `JsonlAudit.write`, at a time and in a context. -/
def JsonlAudit.write (timestamp event : String) (context : Option TraceContext)
    (metadata : Metadata) : Option AuditLine :=
  dumps (plainRecord timestamp event context (redactFields metadata.fields))

end Dante
