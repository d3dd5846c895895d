/-
# The REST API connector

Any HTTP endpoint: method, headers, query and body are sent as the action says.
The content type decides how the body is written. A page is followed by its own
URL, which stands in for path and query.

Key definitions: `Rest.connector`, `Rest.command`, `Rest.buildBody`, `Rest.pageUrl?`.
-/
import Relay.Connector.Basic

namespace Relay.Rest

inductive Fault where
  | missingPage (link : PageLink)
  | invalidBody (reason : String)
  deriving DecidableEq, Repr

def Fault.message : Fault → String
  | .missingPage .next => "no Next page URL is configured"
  | .missingPage .prev => "no Prev page URL is configured"
  | .invalidBody reason => s!"invalid body: {reason}"

def Fault.failure (f : Fault) : Failure := .configuration f.message

/-- The page to ask for instead of the path, when one is wanted and the action
pages by URL. -/
def pageUrl? (a : Action) (i : Invocation) : Except Fault (Option String) :=
  match a.paging, i.page with
  | .url, some link =>
    let url := Text.trim ((match link with | .next => a.next | .prev => a.prev).getD "")
    if url == "" then .error (.missingPage link) else .ok (some url)
  | _, _ => .ok none

/-- The last `Content-Type` without its parameters. -/
def contentType? (headers : List Property) : Option String :=
  (Action.contentTypeOf? headers).map Reply.essence

/-- The body that a content type asks for. Without a JSON text in it, a JSON body
goes out as it is. -/
def buildBody (method : Method) (contentType : Option String) (body : Option String)
    (form : List Property) : Except Fault Body :=
  let text := body.filter fun b => !Text.isBlank b
  let asText : Body := (text.map Body.text).getD .empty
  if !method.allowsBody then .ok .empty
  else match contentType with
    | none => .ok asText
    | some type =>
      if type == "application/x-www-form-urlencoded" && !form.isEmpty then .ok (.form form)
      else if type == "multipart/form-data" then
        if form.isEmpty && text.isSome then
          .error (.invalidBody "multipart bodies are built from form fields, not raw text")
        else .ok (.multipart form)
      else if type == "application/json" || Reply.endsInJson type then
        .ok (((text.bind Json.parse?).map Body.json).getD asText)
      else .ok asText

/-- The URL of an action: its page, or its path with the query of datasource and
action. -/
def buildUrl (a : Action) (d : Datasource) (i : Invocation) : Except Failure Url := do
  match ← (pageUrl? a i).mapError Fault.failure with
  | some page => Request.joinUrl d.url (some page)
  | none =>
    let url ← Request.joinUrl d.url a.path
    pure (Request.appendQuery url (Property.layered d.query a.query) a.encodeQuery)

def build (a : Action) (d : Datasource) (i : Invocation) : Except Failure Request := do
  let headers := Property.layered d.headers a.headers
  let url ← buildUrl a d i
  let body ← (buildBody a.method (contentType? headers) a.body a.form).mapError Fault.failure
  pure { method := a.method, url, headers, body }

def command : Command := { name := "rest-api", build, format := .sniffed }

def select (a : Action) : Except Failure Command :=
  match (a.formData.find? "command").bind Json.text? with
  | none => .ok command
  | some other => .error (.unsupported s!"REST API actions have no `{other}` command")

def urlProblems (d : Datasource) : List String :=
  let url := Text.trim (d.url.getD "")
  if url == "" then ["Missing URL."]
  else match Url.parse? url with
    | .error fault => [s!"Invalid URL: {fault.message}."]
    | .ok url =>
      if url.scheme == "http" || url.scheme == "https" then []
      else [s!"Unsupported URL scheme `{url.scheme}`."]

/-- The text is a URL of http or https. -/
def isWebUrl (s : String) : Bool :=
  match Url.parse? s with
  | .ok url => url.scheme == "http" || url.scheme == "https"
  | .error _ => false

def credentialProblems : Credential → List String
  | .none | .bearer _ => []
  | .basic username _ =>
    if Text.isBlank username then ["Missing username for basic authentication."] else []
  | .apiKey name value _ _ =>
    (if Text.isBlank name then ["Missing API key name."] else [])
    ++ (if Text.isBlank value.text then ["Missing API key value."] else [])
  | .oauth client =>
    if isWebUrl (Text.trim client.tokenUrl) then [] else ["Invalid access token URL."]

def invalids (d : Datasource) : TextSet :=
  TextSet.ofList (urlProblems d ++ (d.credential.map credentialProblems).getD [])

/-- The test asks for the head of the base URL. -/
def testRequest (d : Datasource) : Except Failure (Option Request) := do
  let url ← Request.joinUrl d.url none
  pure (some { method := .head, url })

/-- Any answer will do but a refused credential or a fault of the server. -/
def verdict (status : Nat) : Option String :=
  if status = 401 ∨ status = 403 then some s!"Authentication failed with status {status}."
  else if 500 ≤ status then some s!"Datasource is unavailable (status {status})."
  else none

def connector : Connector :=
  { name := "restapi-plugin", invalids, select, testRequest, verdict }

end Relay.Rest
