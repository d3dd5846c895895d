/-
# Stored credentials

A credential is stored as an object tagged with its kind. The whole object must
be readable, unknown entries included. In positional form the tag comes first.

Key definitions: `Credential.toJson`, `Credential.ofDraft?`, `Token.ofDraft?`.
-/
import Relay.Credential.Basic
import Relay.Time.Rfc3339
import Relay.Json.Record

namespace Relay

def Secret.toJson (s : Secret) : Json := .str s.text

def Secret.ofDraft? (d : Draft) : Option Secret := d.text?.map Secret.mk

def Instant.toJson (t : Instant) : Json := .str t.print

def Instant.ofDraft? (d : Draft) : Option Instant := d.text?.bind Instant.parse?

namespace Token

def toJson (t : Token) : Json :=
  .obj [("expiresAt", Json.orNull (t.expiresAt.map Instant.toJson)),
        ("issuedAt", t.issuedAt.toJson),
        ("token", t.secret.toJson)]

def ofDraft? (d : Draft) : Option Token := do
  match ← d.slots? ["token", "expiresAt", "issuedAt"] with
  | [secret, expiresAt, issuedAt] =>
    pure {
      secret := ← secret.required Secret.ofDraft?
      expiresAt := ← expiresAt.orElse none (Slot.nullable Instant.ofDraft?)
      issuedAt := ← issuedAt.required Instant.ofDraft? }
  | _ => none

end Token

namespace KeyPlace

def word : KeyPlace → String
  | .header => "header"
  | .query => "queryParams"

def ofWord? (w : String) : Option KeyPlace := [header, query].find? fun p => p.word == w

def ofDraft? (d : Draft) : Option KeyPlace := d.word?.bind ofWord?

/-- Inside a tagged record an empty object may also stand behind the word. -/
def ofTaggedDraft? : Draft → Option KeyPlace
  | .obj [(w, .obj [])] => ofWord? w
  | d => ofDraft? d

end KeyPlace

namespace Credential

def Kind.ofDraft? (d : Draft) : Option Kind := do
  let word ← d.word?
  all.find? fun k => k.word == word

/-- The entry that holds the kind. -/
def tagName : String := "authenticationType"

def toJson (c : Credential) : Json :=
  let tag := (tagName, Json.str c.kind.word)
  match c with
  | .none => .obj [tag]
  | .bearer token => .obj [tag, ("bearerToken", token.toJson)]
  | .basic username password =>
    .obj [tag, ("password", password.toJson), ("username", .str username)]
  | .apiKey name value place lead =>
    .obj [("addTo", .str place.word), tag, ("headerPrefix", Json.ofText? lead),
          ("key", .str name), ("value", value.toJson)]
  | .oauth client =>
    .obj [("accessTokenUrl", .str client.tokenUrl),
          ("authenticationResponse", Json.orNull (client.token.map Token.toJson)), tag,
          ("clientId", .str client.id), ("clientSecret", client.secret.toJson),
          ("scope", Json.ofText? client.scope)]

/-- The fields of one kind, behind the tag. -/
def ofFields? (kind : Kind) (fields : Draft) : Option Credential := do
  match kind with
  | .none =>
    match fields with
    | .obj _ | .arr [] => pure .none
    | _ => Option.none
  | .bearer =>
    match ← fields.slots? ["bearerToken"] with
    | [token] => pure (.bearer (← token.required Secret.ofDraft?))
    | _ => Option.none
  | .basic =>
    match ← fields.slots? ["username", "password"] with
    | [username, password] =>
      pure (.basic (← username.required Draft.text?) (← password.required Secret.ofDraft?))
    | _ => Option.none
  | .apiKey =>
    match ← fields.slots? ["key", "value", "addTo", "headerPrefix"] with
    | [name, value, place, lead] =>
      pure (.apiKey (← name.required Draft.text?) (← value.required Secret.ofDraft?)
        (← place.orElse .header KeyPlace.ofTaggedDraft?)
        (← lead.orElse Option.none (Slot.nullable Draft.text?)))
    | _ => Option.none
  | .oauth =>
    match ← fields.slots?
        ["clientId", "clientSecret", "accessTokenUrl", "scope", "authenticationResponse"] with
    | [id, secret, tokenUrl, scope, token] =>
      pure (.oauth {
        id := ← id.required Draft.text?
        secret := ← secret.required Secret.ofDraft?
        tokenUrl := ← tokenUrl.required Draft.text?
        scope := ← scope.orElse Option.none (Slot.nullable Draft.text?)
        token := ← token.orElse Option.none (Slot.nullable Token.ofDraft?) })
    | _ => Option.none

/-- The kind that a tag's text names. -/
def kindOfTag? (tag : Draft) : Option Kind := do
  let word ← tag.text?
  Kind.all.find? fun k => k.word == word

def ofDraft? (d : Draft) : Option Credential := do
  let _ ← d.value?
  match d with
  | .obj fields =>
    match fields.filter fun f => f.1 == tagName with
    | [tag] => ofFields? (← kindOfTag? tag.2) d
    | _ => Option.none
  | .arr (tag :: rest) => ofFields? (← kindOfTag? tag) (.arr rest)
  | _ => Option.none

end Credential

end Relay
