/-
# Tokens for client credentials

An OAuth2 client gets a token by posting its credentials to the token endpoint as
a form. The answer, read as the text that its headers tell, is a JSON object with the
token and, if the token expires, the seconds until then.

Key definitions: `Grant.fields`, `Grant.tokenOf`, `TokenSource`, `clientCredentials`.
-/
import Relay.Call
import Relay.Wire.Network

namespace Relay

open Call Wire

namespace Grant

/-- The form that is posted; a blank scope is left out. -/
def fields (client : OAuthClient) : List Property :=
  [⟨"grant_type", "client_credentials"⟩, ⟨"client_id", client.id⟩,
   ⟨"client_secret", client.secret.text⟩]
    ++ (match client.scope with
      | some scope => if Text.isBlank scope then [] else [⟨"scope", scope⟩]
      | none => [])

/-- The call to the token endpoint. -/
def outgoing (client : OAuthClient) : Except Fault Outgoing :=
  match Url.parse? client.tokenUrl with
  | .error _ => .error (.unwritable none)
  | .ok url => .ok { method := .post, url, body := .form (fields client) }

/-- What the endpoint says in a readable answer. -/
structure Answer where
  token : String
  expiresIn : Option Int
  deriving DecidableEq, Repr

def Answer.ofText? (text : String) : Option Answer := do
  let d ← Json.Read.document? text
  match ← d.slots? ["access_token", "expires_in"] with
  | [token, expiresIn] =>
    pure {
      token := ← token.required Draft.text?
      expiresIn := ← expiresIn.orElse none
        (Slot.nullable (Draft.int? (-(Int.pow 2 63)) (Int.pow 2 63 - 1))) }
  | _ => none

/-- The token that a text of the endpoint grants at an instant. -/
def tokenOf (now : Instant) (status : Nat) (text : String) : Except Halt Token :=
  if status < 200 ∨ 300 ≤ status then
    .error (.failed ((Failure.authentication s!"token endpoint returned status {status}").withDetail
      (.str text)))
  else match Answer.ofText? text with
    | none =>
      .error (.failed (.authentication
        s!"token endpoint returned a malformed response: {Json.malformed}"))
    | some ⟨token, none⟩ => .ok { secret := ⟨token⟩, issuedAt := now }
    | some ⟨token, some seconds⟩ =>
      match now.shift? seconds with
      | none => .error .noSuchTime
      | some expiry => .ok { secret := ⟨token⟩, expiresAt := some expiry, issuedAt := now }

/-- A fault on the way to the endpoint; running out of time is a failure of its own. -/
def failureOf : Fault → Failure
  | .late after => .timeout after
  | f => .authentication s!"token request failed: {f.reason}"

end Grant

/-- Where tokens come from; asking may change what lies outside. -/
structure TokenSource (σ : Type) where
  fetch : Credential → σ → Except Halt Token × σ

variable {σ : Type}

/-- Asks the token endpoint for a token, within a time. A body of any size is read. -/
def Grant.fetch (net : Network σ) (timeout : Span) (client : OAuthClient) (outside : σ) :
    Except Halt Token × σ :=
  match Grant.outgoing client with
  | .error fault => (.error (.failed (Grant.failureOf fault)), outside)
  | .ok o =>
    match net.send o timeout outside with
    | (.error fault, outside) => (.error (.failed (Grant.failureOf fault)), outside)
    | (.ok answer, outside) =>
      match answer.readAll timeout with
      | .error fault => (.error (.failed (Grant.failureOf fault)), outside)
      | .ok reply =>
        (Grant.tokenOf (net.now outside) reply.status (net.text answer.headers reply.body), outside)

/-- Tokens for client credentials over a network; other credentials get none. -/
def clientCredentials (net : Network σ) (timeout : Span) : TokenSource σ where
  fetch := fun credential outside =>
    match credential with
    | .oauth client => Grant.fetch net timeout client outside
    | _ =>
      (.error (.failed (.configuration "client-credentials grant requires an OAuth2 credential")),
       outside)

end Relay
