/-
# Replies and what they mean

A reply is a complete response. It is classified by the first rule that applies:
a refused credential, another refusal, a body that cannot be read, any other
status that is no success, and success. A refusal is told with the body as text,
whatever its format.

Key definitions: `Reply`, `Reply.withHeader`, `Format`, `Reply.parseBody`,
`Reply.classify`.
-/
import Relay.Text.Utf8
import Relay.Text.Split
import Relay.Json.Read
import Relay.Report

namespace Relay

structure Reply where
  status : Nat
  /-- Names are in lower case. -/
  headers : Table String := []
  body : Text.Utf8.Bytes := []
  deriving DecidableEq, Inhabited

/-- How a body is read. -/
inductive Format where
  /-- The body must be JSON. -/
  | json
  /-- The content type tells whether it is JSON or text. -/
  | sniffed
  deriving DecidableEq, Repr, Inhabited

namespace Reply

def withHeader (r : Reply) (name value : String) : Reply :=
  { r with headers := r.headers.insert (Text.lower name) value }

def contentType? (r : Reply) : Option String := r.headers.find? "content-type"

def isSuccess (r : Reply) : Bool := 200 ≤ r.status && r.status < 300

/-- The body as text, faults replaced; none when it is empty. -/
def bodyText? (r : Reply) : Option Json :=
  if r.body.isEmpty then none else some (.str (Text.Utf8.decodeLossy r.body))

/-- What a content type says before its first semicolon. -/
def essence (contentType : String) : String :=
  Text.foldName (String.ofList (Text.cut ';' contentType.toList).1)

/-- The text ends in `+json`. -/
def endsInJson (s : String) : Bool := "+json".toList.isSuffixOf s.toList

def isJsonType (contentType : String) : Bool :=
  let e := essence contentType
  e == "application/json" || endsInJson e || e == "text/json"

/-- The value that the bytes hold. -/
def jsonOf? (body : Text.Utf8.Bytes) : Option Json :=
  match Text.Utf8.decode body with
  | .ok s => Json.parse? s
  | .error _ => none

def parseJson (body : Text.Utf8.Bytes) : Except Failure Json :=
  match jsonOf? body with
  | some j => .ok j
  | none => .error (.parse "body" Json.malformed)

/-- The body in the given format. -/
def parseBody (r : Reply) : Format → Except Failure Json
  | .json => parseJson r.body
  | .sniffed =>
    if (r.contentType?.map isJsonType).getD false then parseJson r.body
    else match Text.Utf8.decode r.body with
      | .ok s => .ok (.str s)
      | .error fault => .error (.parse "body" fault.message)

/-- A refusal, told with the body as text. -/
def refusal (r : Reply) (f : Failure) : Failure :=
  match r.bodyText? with
  | some text => f.withDetail text
  | none => f

/-- The value of a reply that was not refused, or what is wrong with it. -/
def value (r : Reply) (format : Format) : Except Failure Json := do
  let parsed ← if r.body.isEmpty then pure Json.null else r.parseBody format
  if r.isSuccess then pure parsed
  else
    let f := Failure.plugin s!"datasource returned unexpected status {r.status}"
    throw (if parsed.isNull then f else f.withDetail parsed)

/-- The report on a reply. -/
def classify (r : Reply) (format : Format) (snapshot : Option Snapshot) : Report :=
  let failed (f : Failure) := Report.failed (.http r.status) f r.headers snapshot
  if r.status = 401 then
    failed (r.refusal (.authentication
      s!"datasource rejected the credentials (status {r.status})"))
  else if 400 ≤ r.status ∧ r.status < 500 then
    failed (r.refusal (.datasource s!"datasource rejected the request (status {r.status})"))
  else match r.value format with
    | .ok body => .success r.status body r.headers snapshot
    | .error f => failed f

end Reply

end Relay
