/-
# Credentials

A datasource is reached with one of five kinds of credential, or none. Parts that
must not leak are secrets: they are sent and stored, never shown. An OAuth2
credential also carries the token that was last obtained for it, which is not
part of its identity.

Key definitions: `Credential`, `Credential.Kind`, `Token`, `Token.isExpired?`,
`Credential.identity`, `Credential.masked`.
Key theorem: `identity_withToken`.
-/
import Relay.Text.Blank
import Relay.Time.Instant

namespace Relay

/-- Text that is sent but never shown. -/
structure Secret where
  text : String
  deriving DecidableEq, Inhabited

/-- What stands for every secret in what is shown. -/
def redacted : String := "****"

/-- An access token and when it was issued and expires. -/
structure Token where
  secret : Secret
  expiresAt : Option Instant := none
  issuedAt : Instant
  deriving DecidableEq, Inhabited

/-- Whether the token must be renewed now, `skew` seconds before it expires at the
latest; none where the calendar has no such instant. -/
def Token.isExpired? (t : Token) (now : Instant) (skew : Int) : Option Bool :=
  match t.expiresAt with
  | none => some false
  | some expiry => (expiry.shift? (-skew)).map fun deadline => deadline.le now

/-- Where an API key goes. -/
inductive KeyPlace where
  | header | query
  deriving DecidableEq, Repr, Inhabited

/-- A client of an OAuth2 token endpoint. -/
structure OAuthClient where
  id : String
  secret : Secret
  tokenUrl : String
  scope : Option String := none
  token : Option Token := none
  deriving DecidableEq, Inhabited

inductive Credential where
  | none
  | bearer (token : Secret)
  | basic (username : String) (password : Secret)
  /-- The lead is written before the key's value in a header. -/
  | apiKey (name : String) (value : Secret) (place : KeyPlace) (lead : Option String)
  | oauth (client : OAuthClient)
  deriving DecidableEq, Inhabited

namespace Credential

inductive Kind where
  | none | bearer | basic | apiKey | oauth
  deriving DecidableEq, Repr, Inhabited

namespace Kind

def all : List Kind := [.none, .bearer, .basic, .apiKey, .oauth]

/-- The word that stored credentials are tagged with. -/
def word : Kind → String
  | .none => "none"
  | .bearer => "bearerToken"
  | .basic => "basic"
  | .apiKey => "apiKey"
  | .oauth => "oAuth2"

/-- The name in messages. -/
def describe : Kind → String
  | .none => "none"
  | .bearer => "bearer token"
  | .basic => "basic"
  | .apiKey => "api key"
  | .oauth => "oauth2"

end Kind

def kind : Credential → Kind
  | .none => .none
  | .bearer _ => .bearer
  | .basic .. => .basic
  | .apiKey .. => .apiKey
  | .oauth _ => .oauth

/-- The kind of a credential that may be absent. -/
def kindOf : Option Credential → Kind
  | some c => c.kind
  | Option.none => .none

/-- The credential without the token obtained for it. It stands for a fingerprint of 64
bits of the same, and is as good as long as no two credentials share a fingerprint. -/
def identity : Credential → Credential
  | .oauth client => .oauth { client with token := Option.none }
  | c => c

/-- The credential with every secret blotted out. Two credentials that differ in
nothing but secrets have the same masked form. -/
def masked : Credential → Credential
  | .bearer _ => .bearer ⟨redacted⟩
  | .basic username _ => .basic username ⟨redacted⟩
  | .apiKey name _ place lead => .apiKey name ⟨redacted⟩ place lead
  | .oauth client =>
    .oauth { client with
      secret := ⟨redacted⟩
      token := client.token.map fun t => { t with secret := ⟨redacted⟩ } }
  | .none => .none

/-- Replaces the token of an OAuth2 credential. -/
def withToken (t : Token) : Credential → Credential
  | .oauth client => .oauth { client with token := some t }
  | c => c

def token? : Credential → Option Token
  | .oauth client => client.token
  | _ => Option.none

/-- A token is not part of the identity. -/
@[simp] theorem identity_withToken (t : Token) (c : Credential) :
    (c.withToken t).identity = c.identity := by
  cases c <;> rfl

end Credential

end Relay
