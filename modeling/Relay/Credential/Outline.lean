/-
# What a log may show of a credential

Every part by name, with a fixed word in the place of each secret.

Key definitions: `Credential.outline`, `Token.outline`.
Key theorem: `outline_masked`.
-/
import Relay.Credential.Basic
import Relay.Text.Quoted
import Relay.Text.Split
import Relay.Time.Rfc3339

namespace Relay

/-- Stands for a secret. -/
def Secret.outline (_ : Secret) : String := "Secret([REDACTED alloc::string::String])"

namespace Outline

/-- A name and its parts in order. -/
def parts (name : String) (fields : List (String × String)) : String :=
  name ++ " \x7b " ++ Text.joinText ", " (fields.map fun f => f.1 ++ ": " ++ f.2) ++ " \x7d"

def optional : Option String → String
  | some s => "Some(" ++ s ++ ")"
  | none => "None"

end Outline

open Outline Text

def Token.outline (t : Token) : String :=
  parts "AuthenticationResponse"
    [("token", t.secret.outline), ("expires_at", optional (t.expiresAt.map Instant.print)),
     ("issued_at", t.issuedAt.print)]

def KeyPlace.outline : KeyPlace → String
  | .header => "Header"
  | .query => "QueryParams"

namespace Credential

def outline : Credential → String
  | .none => "None"
  | .bearer token => parts "BearerToken" [("bearer_token", token.outline)]
  | .basic username password =>
    parts "Basic" [("username", quote username), ("password", password.outline)]
  | .apiKey name value place lead =>
    parts "ApiKey" [("key", quote name), ("value", value.outline), ("add_to", place.outline),
      ("header_prefix", optional (lead.map quote))]
  | .oauth client =>
    parts "OAuth2" [("client_id", quote client.id), ("client_secret", client.secret.outline),
      ("access_token_url", quote client.tokenUrl), ("scope", optional (client.scope.map quote)),
      ("authentication_response", optional (client.token.map Token.outline))]

/-- The outline does not depend on any secret. -/
theorem outline_masked (c : Credential) : c.masked.outline = c.outline := by
  cases c with
  | oauth client =>
    obtain ⟨id, secret, tokenUrl, scope, token⟩ := client
    cases token <;> rfl
  | _ => rfl

end Credential

end Relay
