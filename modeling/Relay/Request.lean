/-
# Requests

A request is everything that one call needs, before the credential is attached.

Key definitions: `Request`, `Body`, `Body.audit`, `joinUrl`, `appendQuery`.
-/
import Relay.Url.Query
import Relay.Failure
import Relay.Property

namespace Relay

inductive Body where
  | empty
  | json (value : Json)
  | text (s : String)
  | form (fields : List Property)
  | multipart (fields : List Property)
  deriving DecidableEq, Inhabited

namespace Body

/-- The fields as an object; of equal keys the last counts. -/
def fieldsJson (fields : List Property) : Json :=
  .obj (Table.ofPairs (fields.map fun p => (p.key, Json.str p.value)))

/-- What a snapshot shows of the body. -/
def audit : Body → Option Json
  | .empty => none
  | .json value => some value
  | .text s => some (.str s)
  | .form fields => some (fieldsJson fields)
  | .multipart fields => some (fieldsJson fields)

def isMultipart : Body → Bool
  | .multipart _ => true
  | _ => false

end Body

structure Request where
  method : Method
  url : Url
  headers : List Property := []
  body : Body := .empty
  deriving DecidableEq, Inhabited

namespace Request

/-- The URL that a text is, if its scheme is http or https. -/
def webUrl (raw : String) : Except Failure Url :=
  match Url.parse? raw with
  | .error fault => .error (.configuration s!"invalid URL `{raw}`: {fault.message}")
  | .ok url =>
    if url.scheme == "http" || url.scheme == "https" then .ok url
    else .error (.configuration s!"unsupported URL scheme `{url.scheme}`")

/-- The text begins like an absolute URL of http or https. -/
def isAbsolute (path : String) : Bool :=
  Text.startsWith "http://".toList path.toList || Text.startsWith "https://".toList path.toList

/-- The base without slashes at its end, a slash, and the path without slashes at
its front. -/
def joinText (base path : String) : String :=
  String.ofList (Text.dropEndWhile (· = '/') base.toList
    ++ '/' :: path.toList.dropWhile (· = '/'))

/-- The URL of a path below a base. An absolute path stands for itself. -/
def joinUrl (base path : Option String) : Except Failure Url :=
  let path := Text.trim (path.getD "")
  if isAbsolute path then webUrl path
  else
    let base := Text.trim (base.getD "")
    if base == "" then .error (.configuration "datasource URL is missing")
    else if path == "" then webUrl base
    else webUrl (joinText base path)

/-- The parameters that have a name, names trimmed. -/
def queryPairs (parameters : List Property) : List (String × String) :=
  (Property.stripBlank parameters).map fun p => (Text.trim p.key, p.value)

/-- Appends parameters to the query, encoded or as they are. -/
def appendQuery (url : Url) (parameters : List Property) (encode : Bool) : Url :=
  let pairs := queryPairs parameters
  if pairs.isEmpty then url
  else if encode then url.appendEncoded pairs
  else url.appendVerbatim pairs

end Request

end Relay
