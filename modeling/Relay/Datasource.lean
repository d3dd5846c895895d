/-
# Datasources

A datasource is a place that actions are sent to: a URL, properties that go with
every request, and a credential. With an id its connection can be kept.

Key definitions: `Datasource`, `Datasource.toJson`, `Datasource.ofDraft?`.
-/
import Relay.Property
import Relay.Credential.Stored

namespace Relay

structure Datasource where
  id : Option String := none
  url : Option String := none
  headers : List Property := []
  query : List Property := []
  credential : Option Credential := none
  properties : List Property := []
  deriving DecidableEq, Inhabited

namespace Datasource

def toJson (d : Datasource) : Json :=
  .obj [
    ("authentication", Json.orNull (d.credential.map Credential.toJson)),
    ("headers", Property.listJson d.headers),
    ("id", Json.ofText? d.id),
    ("properties", Property.listJson d.properties),
    ("queryParameters", Property.listJson d.query),
    ("url", Json.ofText? d.url)]

def ofDraft? (d : Draft) : Option Datasource := do
  match ← d.slots? ["id", "url", "headers", "queryParameters", "authentication", "properties"] with
  | [id, url, headers, query, credential, properties] =>
    pure {
      id := ← id.orElse none (Slot.nullable Draft.text?)
      url := ← url.orElse none (Slot.nullable Draft.text?)
      headers := ← headers.orElse [] Property.listOfDraft?
      query := ← query.orElse [] Property.listOfDraft?
      credential := ← credential.orElse none (Slot.nullable Credential.ofDraft?)
      properties := ← properties.orElse [] Property.listOfDraft? }
  | _ => none

end Datasource

end Relay
