/-
# Connections

A connection holds one version of a credential and never changes. It attaches the
credential to each request: as a header, or as a query pair of the URL. For the
audit it lists the same headers, with its own value masked.

Key definitions: `Connection`, `Connection.outboundUrl`, `Connection.headers`,
`Connection.auditHeaders`, `Connection.snapshot`.
-/
import Relay.Request
import Relay.Audit.Snapshot

namespace Relay

structure Connection where
  /-- Zero outside of any pool. -/
  version : Nat := 0
  credential : Option Credential := none
  deriving DecidableEq, Inhabited

namespace Connection

/-- Where the credential goes in a request. -/
inductive Attachment where
  | none
  | header (name value : String)
  | query (name value : String)
  deriving DecidableEq, Repr

/-- Base64 of bytes, padded. -/
def base64 : List UInt8 → List Char
  | [] => []
  | [a] =>
    let n := a.toNat * 65536
    [digit (n / 262144), digit (n / 4096 % 64), '=', '=']
  | [a, b] =>
    let n := a.toNat * 65536 + b.toNat * 256
    [digit (n / 262144), digit (n / 4096 % 64), digit (n / 64 % 64), '=']
  | a :: b :: c :: rest =>
    let n := a.toNat * 65536 + b.toNat * 256 + c.toNat
    digit (n / 262144) :: digit (n / 4096 % 64) :: digit (n / 64 % 64) :: digit (n % 64)
      :: base64 rest
where
  digit (n : Nat) : Char :=
    if n < 26 then Char.ofNat (65 + n)
    else if n < 52 then Char.ofNat (71 + n)
    else if n < 62 then Char.ofNat (n - 4)
    else if n = 62 then '+'
    else '/'

/-- The value of a basic `Authorization` header. -/
def basicValue (username password : String) : String :=
  let bytes := (username ++ ":" ++ password).toList.flatMap String.utf8EncodeChar
  "Basic " ++ String.ofList (base64 bytes)

/-- How a credential is attached. An API key in a header may have a lead. -/
def attachment : Option Credential → Attachment
  | some (.bearer token) => .header "authorization" ("Bearer " ++ token.text)
  | some (.basic username password) => .header "authorization" (basicValue username password.text)
  | some (.apiKey name value .header lead) =>
    let lead := Text.trim (lead.getD "")
    .header (Text.trim name) (if lead == "" then value.text else lead ++ " " ++ value.text)
  | some (.apiKey name value .query _) => .query (Text.trim name) value.text
  | some (.oauth client) =>
    match client.token with
    | some token => .header "authorization" ("Bearer " ++ token.secret.text)
    | none => .none
  | _ => .none

def redaction (c : Connection) : Redaction := Redaction.ofCredential c.credential

/-- The URL that is asked for, with an API key that goes into the query. -/
def outboundUrl (c : Connection) (r : Request) : Url :=
  match attachment c.credential with
  | .query name value => r.url.appendPair name value
  | _ => r.url

/-- The request's own headers. A multipart body sets its content type itself. -/
def ownHeaders (r : Request) : List Property :=
  r.headers.filter fun h => !(r.body.isMultipart && h.hasName "content-type")

/-- The headers that are put on the request: its own with trimmed names, then the
credential's. -/
def headers (c : Connection) (r : Request) : List (String × String) :=
  (ownHeaders r).map (fun h => (Text.trim h.key, h.value))
    ++ (match attachment c.credential with
      | .header name value => [(name, value)]
      | _ => [])

/-- The headers as an audit shows them, the credential's own value masked. -/
def auditHeaders (c : Connection) (r : Request) : List Property :=
  ownHeaders r ++
    (match c.credential with
    | some (.bearer _) | some (.basic ..) | some (.oauth _) => [⟨"Authorization", redacted⟩]
    | some (.apiKey name _ .header _) => [⟨Text.trim name, redacted⟩]
    | _ => [])

/-- What an audit shows of a request over this connection. -/
def snapshot (c : Connection) (r : Request) (inserted : List Inserted) : Snapshot :=
  Snapshot.capture c.redaction r.method (c.outboundUrl r).print (c.auditHeaders r) r.body.audit
    inserted

end Connection

end Relay
