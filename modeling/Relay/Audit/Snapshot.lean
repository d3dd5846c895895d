/-
# Audit snapshots

A snapshot shows what one attempt sent, with secrets masked, and which values
were put into the action for it.

Key definitions: `Snapshot`, `Snapshot.capture`, `Snapshot.toJson`,
`Snapshot.ofDraft?`.
-/
import Relay.Audit.Redaction
import Relay.Action.Binding

namespace Relay

namespace Inserted

def toJson (i : Inserted) : Json := .obj [("expression", .str i.expression), ("value", i.value)]

def ofDraft? (d : Draft) : Option Inserted := do
  match ← d.slots? ["expression", "value"] with
  | [expression, value] =>
    pure { expression := ← expression.required Draft.text?, value := ← value.required Draft.value? }
  | _ => none

end Inserted

structure Snapshot where
  url : String
  method : Method
  headers : List Property
  body : Option Json := none
  inserted : List Inserted := []
  deriving DecidableEq, Inhabited

namespace Snapshot

/-- What was sent, with hidden header and query values masked. -/
def capture (r : Redaction) (method : Method) (url : String) (headers : List Property)
    (body : Option Json) (inserted : List Inserted) : Snapshot :=
  { url := r.url url, method, headers := headers.map r.header, body, inserted }

/-- A missing body is left out. -/
def toJson (s : Snapshot) : Json :=
  .obj ((match s.body with | some b => [("body", b)] | none => [])
    ++ [("executionParameters", .arr (s.inserted.map Inserted.toJson)),
        ("headers", Property.listJson s.headers),
        ("httpMethod", .str s.method.name),
        ("url", .str s.url)])

def ofDraft? (d : Draft) : Option Snapshot := do
  match ← d.slots? ["url", "httpMethod", "headers", "body", "executionParameters"] with
  | [url, method, headers, body, inserted] =>
    pure {
      url := ← url.required Draft.text?
      method := ← method.required Method.ofDraft?
      headers := ← headers.required Property.listOfDraft?
      body := ← body.orElse none (Slot.nullable Draft.value?)
      inserted := ← inserted.orElse [] (Draft.list? Inserted.ofDraft?) }
  | _ => none

end Snapshot

end Relay
