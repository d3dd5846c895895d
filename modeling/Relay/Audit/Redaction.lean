/-
# Redaction

Some headers and query parameters hold secrets whatever their value is: a fixed
list of headers, and the name under which the credential's API key is sent. In
what is shown, their values are masked and nothing else is touched.

Key definitions: `Redaction`, `Redaction.ofCredential`, `Redaction.url`,
`Redaction.header`.
-/
import Relay.Credential.Basic
import Relay.Property
import Relay.Text.Split

namespace Relay

/-- The names whose values are hidden, folded as by `Text.foldName`. -/
structure Redaction where
  headers : List String := ["authorization", "proxy-authorization", "cookie", "set-cookie",
    "x-api-key"]
  query : List String := []
  deriving Repr, DecidableEq

namespace Redaction

def withHeader (name : String) (r : Redaction) : Redaction :=
  { r with headers := Text.foldName name :: r.headers }

def withQuery (name : String) (r : Redaction) : Redaction :=
  { r with query := Text.foldName name :: r.query }

/-- What has to be hidden when this credential is used. -/
def ofCredential : Option Credential → Redaction
  | some (.apiKey name _ .header _) => withHeader name {}
  | some (.apiKey name _ .query _) => withQuery name {}
  | _ => {}

def hidesHeader (r : Redaction) (name : String) : Bool := r.headers.contains (Text.foldName name)

def hidesQuery (r : Redaction) (name : String) : Bool := r.query.contains (Text.foldName name)

def header (r : Redaction) (p : Property) : Property :=
  if r.hidesHeader p.key then ⟨p.key, redacted⟩ else p

/-- One `name=value` of a query. Without `=` there is no value to hide. -/
def pair (r : Redaction) (cs : List Char) : List Char :=
  match Text.cut '=' cs with
  | (name, some _) =>
    if r.hidesQuery (String.ofList name) then name ++ '=' :: redacted.toList else cs
  | (_, none) => cs

def queryText (r : Redaction) (query : List Char) : List Char :=
  Text.join ['&'] ((Text.pieces '&' query).map r.pair)

/-- The URL with hidden query values masked. The query stands between the first
`?` and the first `#` behind it. -/
def urlChars (r : Redaction) (cs : List Char) : List Char :=
  if r.query.isEmpty then cs
  else match Text.cut '?' cs with
    | (_, none) => cs
    | (base, some rest) =>
      match Text.cut '#' rest with
      | (query, none) => base ++ '?' :: r.queryText query
      | (query, some fragment) => base ++ '?' :: (r.queryText query ++ '#' :: fragment)

def url (r : Redaction) (s : String) : String := String.ofList (r.urlChars s.toList)

end Redaction

end Relay
