/-
# Failures

Everything that can go wrong is one of nine kinds, each with a fixed code and
title. A failure adds a message and, where there is more to say, a detail.

Key definitions: `Failure`, `Failure.Kind`, `Failure.Kind.isPreFlight`,
`Failure.Info`.
-/
import Relay.Json.Record
import Relay.Time.Instant

namespace Relay

namespace Failure

inductive Kind where
  | missingBinding
  | unsupported
  | configuration
  | authentication
  | datasource
  | parse
  | plugin
  | structural
  | timeout
  deriving DecidableEq, Repr, Inhabited

namespace Kind

def all : List Kind :=
  [.missingBinding, .unsupported, .configuration, .authentication, .datasource, .parse,
   .plugin, .structural, .timeout]

def word : Kind → String
  | .missingBinding => "MISSING_BINDING_VALUE"
  | .unsupported => "UNSUPPORTED_OPERATION"
  | .configuration => "INVALID_CONFIGURATION"
  | .authentication => "AUTHENTICATION_ERROR"
  | .datasource => "DATASOURCE_ERROR"
  | .parse => "PARSE_ERROR"
  | .plugin => "PLUGIN_ERROR"
  | .structural => "STRUCTURE_ERROR"
  | .timeout => "TIMEOUT"

/-- Stands where a response would have its status. -/
def code : Kind → String
  | .missingBinding => "PE-BND-4000"
  | .unsupported => "PE-OPR-4001"
  | .configuration => "PE-CFG-4002"
  | .authentication => "PE-AUT-4010"
  | .datasource => "PE-DSE-4004"
  | .parse => "PE-JSN-4005"
  | .plugin => "PE-PLG-5000"
  | .structural => "PE-STR-5002"
  | .timeout => "PE-TMO-5040"

def title : Kind → String
  | .missingBinding => "Missing binding value"
  | .unsupported => "Unsupported operation"
  | .configuration => "Invalid configuration"
  | .authentication => "Datasource authentication error"
  | .datasource => "Datasource request error"
  | .parse => "Response parse error"
  | .plugin => "Query execution error"
  | .structural => "Unexpected response structure"
  | .timeout => "Request timed out"

/-- The kinds that are found before anything is sent. -/
def isPreFlight : Kind → Bool
  | .missingBinding | .unsupported | .configuration => true
  | _ => false

def ofDraft? (d : Draft) : Option Kind := do
  let word ← d.word?
  all.find? fun k => k.word == word

end Kind

end Failure

structure Failure where
  kind : Failure.Kind
  message : String
  detail : Option Json := none
  deriving DecidableEq, Inhabited

namespace Failure

def describe (f : Failure) : String := s!"{f.kind.title}: {f.message}"

def missingBinding (expression : String) : Failure :=
  ⟨.missingBinding, s!"no value was supplied for binding `{expression}`", none⟩

def unsupported (message : String) : Failure := ⟨.unsupported, message, none⟩
def configuration (message : String) : Failure := ⟨.configuration, message, none⟩
def authentication (message : String) : Failure := ⟨.authentication, message, none⟩
def datasource (message : String) : Failure := ⟨.datasource, message, none⟩
def plugin (message : String) : Failure := ⟨.plugin, message, none⟩
def structural (message : String) : Failure := ⟨.structural, message, none⟩

/-- The named part could not be read; the detail names it again. -/
def parse (field reason : String) : Failure :=
  ⟨.parse, s!"failed to parse `{field}`: {reason}", some (.obj [("field", .str field)])⟩

def timeout (after : Span) : Failure :=
  ⟨.timeout, s!"request did not complete within {after.millis}ms", none⟩

def withDetail (detail : Json) (f : Failure) : Failure := { f with detail := some detail }

/-- What a failed result says of its failure. -/
structure Info where
  kind : Kind
  code : String
  title : String
  message : String
  detail : Option Json := none
  deriving DecidableEq, Inhabited

def info (f : Failure) : Info := ⟨f.kind, f.kind.code, f.kind.title, f.message, f.detail⟩

namespace Info

/-- A missing detail is left out. -/
def toJson (i : Info) : Json :=
  .obj ([("code", .str i.code)]
    ++ (match i.detail with | some d => [("detail", d)] | none => [])
    ++ [("kind", .str i.kind.word), ("message", .str i.message), ("title", .str i.title)])

def ofDraft? (d : Draft) : Option Info := do
  match ← d.slots? ["kind", "code", "title", "message", "detail"] with
  | [kind, code, title, message, detail] =>
    pure {
      kind := ← kind.required Kind.ofDraft?
      code := ← code.required Draft.text?
      title := ← title.required Draft.text?
      message := ← message.required Draft.text?
      detail := ← detail.optional Draft.value? }
  | _ => none

end Info

end Failure

/-- Stands for the reason why a text is no JSON. -/
def Json.malformed : String := "<parser>"

end Relay
