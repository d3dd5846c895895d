/-
# Actions

An action is the stored configuration of one call: method, path, headers, query,
body, form and whatever a connector keeps in its own form data. Its texts may
hold placeholders.

Key definitions: `Action`, `Action.contentType?`, `Action.effectiveTimeout`,
`Action.sanitize`.
-/
import Relay.Property
import Relay.Time.Instant
import Relay.Decimal.Whole

namespace Relay

/-- How further pages of a listing are reached. -/
inductive Paging where
  | none | pageNo | url | cursor
  deriving DecidableEq, Repr, Inhabited

def Paging.all : List Paging := [.none, .pageNo, .url, .cursor]

def Paging.name : Paging → String
  | .none => "NONE"
  | .pageNo => "PAGE_NO"
  | .url => "URL"
  | .cursor => "CURSOR"

/-- Which neighbouring page is asked for. -/
inductive PageLink where
  | next | prev
  deriving DecidableEq, Repr, Inhabited

def PageLink.all : List PageLink := [.next, .prev]

def PageLink.name : PageLink → String
  | .next => "NEXT"
  | .prev => "PREV"

structure Action where
  method : Method := .get
  path : Option String := none
  headers : List Property := []
  autoHeaders : List Property := []
  query : List Property := []
  /-- Query values are percent-encoded, or else appended as they are. -/
  encodeQuery : Bool := true
  body : Option String := none
  form : List Property := []
  templates : List Property := []
  formData : Table Json := []
  /-- In milliseconds. -/
  timeout : Option Int64 := none
  paging : Paging := .none
  next : Option String := none
  prev : Option String := none
  /-- Paths that are expected to refer to this action's own answer. Never stored. -/
  selfReferences : TextSet := []
  deriving DecidableEq, Inhabited

namespace Action

/-- The bounds of a timeout in milliseconds. -/
def minTimeout : Int64 := 0
def maxTimeout : Int64 := 60000

/-- A timeout as the user typed it; what is no whole number gives the longest. -/
def timeoutOfText (raw : String) : Int64 :=
  (Decimal.signed? (Text.trim raw)).getD maxTimeout

/-- The time that the call may take: the action's own if it is positive, at most
`maxTimeout`, and the default otherwise. -/
def effectiveTimeout (a : Action) (default : Span) : Span :=
  match a.timeout with
  | some ms =>
    if 0 < ms then Span.ofMillis (min ms.toInt maxTimeout.toInt).toNat else default
  | none => default

/-- The value of the last `Content-Type` header, trimmed. -/
def contentTypeOf? (headers : List Property) : Option String :=
  (headers.reverse.find? fun h => h.hasName "content-type").map fun h => Text.trim h.value

def contentType? (a : Action) : Option String := contentTypeOf? a.headers

def isSelfReferencing (a : Action) (path : String) : Bool := a.selfReferences.contains path

def declareSelfReference (a : Action) (path : String) : Action :=
  { a with selfReferences := TextSet.insert a.selfReferences path }

/-- What should be sent: no property without a key, and the generated headers
folded into the others. -/
def sanitize (a : Action) : Action :=
  { a with
    headers :=
      Property.mergeAuto (Property.stripBlank a.headers) (Property.stripBlank a.autoHeaders)
    autoHeaders := []
    query := Property.stripBlank a.query
    form := Property.stripBlank a.form
    templates := Property.stripBlank a.templates }

end Action

end Relay
