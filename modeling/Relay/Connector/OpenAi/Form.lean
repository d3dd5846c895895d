/-
# Settings of OpenAI actions

The sections of an action's form data are read into request bodies. Bindings
insert text, so messages may be a text that holds a JSON array, and numbers may be
texts.

Key definitions: `ChatRequest.ofSection?`, `EmbeddingsRequest.ofSection?`,
`FormFault`.
-/
import Relay.Text.Blank
import Relay.Json.Read
import Relay.Json.Print
import Relay.Json.Record
import Relay.Decimal.Float
import Relay.Decimal.Whole
import Relay.Failure

namespace Relay.OpenAi

inductive FormFault where
  | missingSection (name : String)
  | missingModel
  | invalidMessages (reason : String)
  | missingInput
  | invalidNumber (field value : String)
  deriving DecidableEq, Repr

def FormFault.message : FormFault → String
  | .missingSection name => s!"`{name}` settings are missing"
  | .missingModel => "model is required"
  | .invalidMessages reason => s!"invalid messages: {reason}"
  | .missingInput => "embedding input is required"
  | .invalidNumber field value => s!"`{field}` must be a number, got `{value}`"

def FormFault.failure (f : FormFault) : Failure := .configuration f.message

/-- The entries of a form section. -/
abbrev Section := Table Json

/-- The entry as text without blanks around it, unless it is blank. -/
def trimmedText? (s : Section) (name : String) : Option String :=
  ((s.find? name).bind Json.text?).bind fun text =>
    let text := Text.trim text
    if text == "" then none else some text

def model? (s : Section) : Except FormFault String :=
  match trimmedText? s "model" with
  | some model => .ok model
  | none => .error .missingModel

/-- A number given as JSON or as text. Missing, null and blank text are none. -/
def number? {α : Type} (s : Section) (field : String) (ofNumber : Json.Number → Option α)
    (ofText : String → Option α) : Except FormFault (Option α) :=
  match s.find? field with
  | none | some .null => .ok none
  | some (.num n) =>
    match ofNumber n with
    | some x => .ok (some x)
    | none => .error (.invalidNumber field (Json.print (.num n)))
  | some (.str text) =>
    if Text.isBlank text then .ok none
    else match ofText (Text.trim text) with
      | some x => .ok (some x)
      | none => .error (.invalidNumber field text)
  | some other => .error (.invalidNumber field (Json.print other))

/-- Any number as a double. -/
def doubleOf : Json.Number → Option Binary64
  | .int n => some (Binary64.ofRatio (n < 0) n.natAbs 1)
  | .real x => some x

/-- A whole number that is not negative. -/
def countOf : Json.Number → Option Nat
  | .int n => if 0 ≤ n then some n.toNat else none
  | .real _ => none

structure ChatMessage where
  role : String
  content : Json
  deriving DecidableEq, Inhabited

namespace ChatMessage

def toJson (m : ChatMessage) : Json := .obj [("content", m.content), ("role", .str m.role)]

def ofDraft? (d : Draft) : Option ChatMessage := do
  match ← d.slots? ["role", "content"] with
  | [role, content] =>
    pure { role := ← role.required Draft.text?, content := ← content.required Draft.value? }
  | _ => none

end ChatMessage

structure ChatRequest where
  model : String
  messages : List ChatMessage
  temperature : Option Binary64 := none
  maxTokens : Option Nat := none
  deriving DecidableEq, Inhabited

namespace ChatRequest

/-- The messages of a section: an array, or a text that holds one. -/
def messages? (s : Section) : Except FormFault (List ChatMessage) :=
  let read (d : Option Draft) : Except FormFault (List ChatMessage) :=
    match d.bind (Draft.list? ChatMessage.ofDraft?) with
    | some messages => .ok messages
    | none => .error (.invalidMessages Json.malformed)
  match s.find? "messages" with
  | none | some .null => .error (.invalidMessages "no messages")
  | some (.str text) => read (Json.Read.document? text)
  | some value => read (some value.toDraft)

/-- Refuses an empty conversation and a message without a role. -/
def checkMessages (messages : List ChatMessage) : Except FormFault Unit :=
  if messages.isEmpty then .error (.invalidMessages "no messages")
  else match messages.find? fun m => Text.isBlank m.role with
    | some m => .error (.invalidMessages s!"message without a role: {Json.print m.content}")
    | none => .ok ()

def ofSection? (s : Section) : Except FormFault ChatRequest := do
  let model ← model? s
  let messages ← messages? s
  checkMessages messages
  let temperature ← number? s "temperature" doubleOf Decimal.float?
  let maxTokens ← number? s "maxTokens" countOf fun t => (Decimal.unsigned? t).map (·.toNat)
  pure { model, messages, temperature, maxTokens }

/-- A double as JSON; infinities and NaN have no number. -/
def doubleJson (x : Binary64) : Json := if x.isFinite then .num (.real x) else .null

/-- Settings that are not given are left out. -/
def toJson (r : ChatRequest) : Json :=
  .obj (
    (match r.maxTokens with | some n => [("max_tokens", Json.ofNat n)] | none => [])
    ++ [("messages", .arr (r.messages.map ChatMessage.toJson)), ("model", .str r.model)]
    ++ (match r.temperature with | some t => [("temperature", doubleJson t)] | none => []))

end ChatRequest

structure EmbeddingsRequest where
  model : String
  input : Json
  encodingFormat : Option String := none
  deriving DecidableEq, Inhabited

namespace EmbeddingsRequest

/-- The input of a section: a text that is not blank, or a list that is not empty. -/
def input? (s : Section) : Except FormFault Json :=
  match s.find? "input" with
  | some (.str text) => if Text.isBlank text then .error .missingInput else .ok (.str text)
  | some (.arr (x :: xs)) => .ok (.arr (x :: xs))
  | _ => .error .missingInput

def ofSection? (s : Section) : Except FormFault EmbeddingsRequest := do
  let model ← model? s
  let input ← input? s
  pure { model, input, encodingFormat := trimmedText? s "encodingFormat" }

def toJson (r : EmbeddingsRequest) : Json :=
  .obj (
    (match r.encodingFormat with | some f => [("encoding_format", .str f)] | none => [])
    ++ [("input", r.input), ("model", .str r.model)])

end EmbeddingsRequest

end Relay.OpenAi
