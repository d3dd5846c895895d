/-
# Stored actions

The JSON form of an action. Every field has a default; the timeout is written as
a number and may also be read from text.

Key definitions: `Action.toJson`, `Action.ofDraft?`.
-/
import Relay.Action.Basic

namespace Relay

namespace Paging

def ofDraft? (d : Draft) : Option Paging := do
  let word ← d.word?
  all.find? fun p => p.name == word

end Paging

namespace PageLink

def ofDraft? (d : Draft) : Option PageLink := do
  let word ← d.word?
  all.find? fun p => p.name == word

end PageLink

namespace Action

def toJson (a : Action) : Json :=
  .obj [
    ("autoGeneratedHeaders", Property.listJson a.autoHeaders),
    ("body", Json.ofText? a.body),
    ("bodyFormData", Property.listJson a.form),
    ("encodeParamsToggle", .bool a.encodeQuery),
    ("formData", .obj a.formData),
    ("headers", Property.listJson a.headers),
    ("httpMethod", .str a.method.name),
    ("next", Json.ofText? a.next),
    ("paginationType", .str a.paging.name),
    ("path", Json.ofText? a.path),
    ("pluginSpecifiedTemplates", Property.listJson a.templates),
    ("prev", Json.ofText? a.prev),
    ("queryParameters", Property.listJson a.query),
    ("timeoutInMillisecond",
      match a.timeout with
      | none => .null
      | some ms => Json.ofInt ms.toInt)]

/-- A timeout is null, a whole number of 64 bits, or text. -/
def timeoutOfDraft? : Draft → Option (Option Int64)
  | .null => some none
  | .str s => some (some (timeoutOfText s))
  | d => (d.int? (-(Int.pow 2 63)) (Int.pow 2 63 - 1)).map fun n => some (Int64.ofInt n)

def fieldNames : List String :=
  ["httpMethod", "path", "headers", "autoGeneratedHeaders", "queryParameters",
   "encodeParamsToggle", "body", "bodyFormData", "pluginSpecifiedTemplates", "formData",
   "timeoutInMillisecond", "paginationType", "next", "prev"]

/-- The entries of an object as they stand. -/
def formDataOfDraft? : Draft → Option (Table Json) := Draft.table? Draft.value?

def ofDraft? (d : Draft) : Option Action := do
  match ← d.slots? fieldNames with
  | [method, path, headers, auto, query, encode, body, form, templates, formData,
     timeout, paging, next, prev] =>
    let text := Slot.nullable Draft.text?
    let list := Property.listOfDraft?
    pure {
      method := ← method.orElse .get Method.ofDraft?
      path := ← path.orElse none text
      headers := ← headers.orElse [] list
      autoHeaders := ← auto.orElse [] list
      query := ← query.orElse [] list
      encodeQuery := ← encode.orElse true Draft.flag?
      body := ← body.orElse none text
      form := ← form.orElse [] list
      templates := ← templates.orElse [] list
      formData := ← formData.orElse [] formDataOfDraft?
      timeout := ← timeout.orElse none timeoutOfDraft?
      paging := ← paging.orElse .none Paging.ofDraft?
      next := ← next.orElse none text
      prev := ← prev.orElse none text }
  | _ => none

end Action

end Relay
