/-
# What goes out

A request as it is handed to the client that speaks HTTP: credential attached, the
URL as it was built. User information still stands in the URL; it is the client that
takes it out and sends it as a header, and its faults name the URL without it. Header
names must be tokens, values must hold no controls but the tab, and only http and
https can be spoken.

Key definitions: `Wire.Outgoing`, `Wire.Outgoing.fault?`, `Wire.target`.
-/
import Relay.Connection
import Relay.Wire.Fault

namespace Relay.Wire

structure Outgoing where
  method : Method
  url : Url
  /-- In order; names are trimmed, a name may come again. -/
  headers : List (String × String) := []
  body : Body := .empty
  deriving DecidableEq, Inhabited

/-- What a connection sends for a request. -/
def Outgoing.ofRequest (c : Connection) (r : Request) : Outgoing :=
  { method := r.method, url := c.outboundUrl r, headers := c.headers r, body := r.body }

def isTokenChar (c : Char) : Bool :=
  ('a' ≤ c && c ≤ 'z') || ('A' ≤ c && c ≤ 'Z') || ('0' ≤ c && c ≤ '9')
    || "!#$%&'*+-.^_`|~".toList.contains c

/-- A header name is a token. -/
def isHeaderName (s : String) : Bool := !s.toList.isEmpty && s.toList.all isTokenChar

/-- A header value holds no controls but the tab. -/
def isHeaderValue (s : String) : Bool :=
  s.toList.all fun c => c = '\t' || (0x20 ≤ c.toNat && c.toNat ≠ 0x7F)

/-- A user in the authority, decoded; none where it is no text. -/
def userOf? (a : Url.Authority) : Option (String × Option String) := do
  let text (s : String) : Option String :=
    (Text.Utf8.decode (Url.Percent.decode s.toList)).toOption
  pure (← text a.user, a.password.bind text)

/-- The URL that is spoken to, and named in faults: without user information, which is
sent as a header. -/
def target (url : Url) : Url :=
  match url.authority with
  | none => url
  | some a =>
    match userOf? a with
    | none => url
    | some (user, password) =>
      if user == "" && password.isNone then url
      else { url with authority := some { a with user := "", password := none } }

/-- Why a request cannot be written down: a URL without a host, a header, or a URL
of another scheme, in this order. -/
def Outgoing.fault? (o : Outgoing) : Option Fault :=
  let hasHost := (o.url.authority.bind (·.host)).isSome
  if !hasHost then some (.unwritable (some o.url))
  else if !o.headers.all (fun h => isHeaderName h.1 && isHeaderValue h.2) then
    some (.unwritable none)
  else if o.url.scheme == "http" || o.url.scheme == "https" then none
  else some (.unwritable (some (target o.url)))

end Relay.Wire
