/-
# The OpenAI connector

Three commands over one service: chat completions, embeddings and the list of
models, which also serves discovery. Without a URL of its own a datasource means
the public service.

Key definitions: `OpenAi.connector`, `OpenAi.Task`, `OpenAi.Task.ofForm?`,
`OpenAi.Task.command`.
-/
import Relay.Connector.Basic
import Relay.Connector.OpenAi.Form

namespace Relay.OpenAi

inductive Task where
  | chat | embeddings | listModels
  deriving DecidableEq, Repr, Inhabited

/-- The form has a section of this name. -/
def hasSection (form : Table Json) (name : String) : Bool :=
  ((form.find? name).map Json.isObject).getD false

namespace Task

def name : Task → String
  | .chat => "openai-chat"
  | .embeddings => "openai-embeddings"
  | .listModels => "openai-list-models"

/-- The task that a form names, or the one whose section it has. -/
def ofForm? (form : Table Json) : Except Failure Task :=
  let word := Text.trim (((form.find? "command").bind Json.text?).getD "")
  if word == "CHAT" then .ok .chat
  else if word == "EMBEDDINGS" then .ok .embeddings
  else if word == "LIST_MODELS" then .ok .listModels
  else if word ≠ "" then .error (.unsupported s!"OpenAI has no `{word}` command")
  else if hasSection form "chat" then .ok .chat
  else if hasSection form "embeddings" then .ok .embeddings
  else .error (.unsupported "no OpenAI command selected")

/-- The task whose models a discovery asks for. -/
def ofDiscovery? (r : DiscoveryRequest) : Except Failure Task :=
  if r.requestType == "CHAT_MODELS" then .ok .chat
  else if r.requestType == "EMBEDDING_MODELS" then .ok .embeddings
  else .error (.unsupported s!"OpenAI has no `{r.requestType}` trigger request")

end Task

/-- The datasource's URL, or the public service's. -/
def baseUrl (d : Datasource) : String :=
  let url := Text.trim (d.url.getD "")
  if url == "" then "https://api.openai.com" else url

def modelsPath : String := "/v1/models"

def request (method : Method) (d : Datasource) (path : String) (body : Body)
    (headers : List Property) : Except Failure Request := do
  let url ← Request.joinUrl (some (baseUrl d)) (some path)
  pure { method, url, headers, body }

/-- A section of the form. -/
def section? (form : Table Json) (name : String) : Except FormFault Section :=
  match form.find? name with
  | some (.obj fields) => .ok fields
  | _ => .error (.missingSection name)

/-- JSON is declared unless the content type is set already. -/
def withJsonType (headers : List Property) : List Property :=
  if headers.any fun h => h.hasName "content-type" then headers
  else headers ++ [⟨"Content-Type", "application/json"⟩]

def build (task : Task) (a : Action) (d : Datasource) (_ : Invocation) :
    Except Failure Request := do
  let headers := Property.layered d.headers a.headers
  match task with
  | .chat =>
    let chat ← ((section? a.formData "chat").bind ChatRequest.ofSection?).mapError
      FormFault.failure
    request .post d "/v1/chat/completions" (.json chat.toJson) (withJsonType headers)
  | .embeddings =>
    let embeddings ← ((section? a.formData "embeddings").bind
      EmbeddingsRequest.ofSection?).mapError FormFault.failure
    request .post d "/v1/embeddings" (.json embeddings.toJson) (withJsonType headers)
  | .listModels => request .get d modelsPath .empty headers

def buildDiscovery (d : Datasource) (_ : DiscoveryRequest) : Except Failure Request :=
  request .get d modelsPath .empty (Property.layered d.headers [])

/-- Models that hold conversations, by their families. -/
def isChatModel (id : String) : Bool :=
  let cs := id.toList
  (["gpt-", "o1", "o3", "chatgpt-"].any fun f => Text.startsWith f.toList cs)
    && !(["-instruct", "audio", "realtime", "tts", "transcribe"].any fun x =>
      Text.occurs x.toList cs)

/-- Models that a task can use. An item without an id is left to be skipped. -/
def isCompatible (task : Task) (item : Json) : Bool :=
  match (item.field? "id").bind Json.text? with
  | none => true
  | some id =>
    match task with
    | .chat => isChatModel id
    | .embeddings => Text.occurs "embedding".toList id.toList
    | .listModels => true

def Task.command (task : Task) : Command :=
  { name := task.name
    build := OpenAi.build task
    buildDiscovery := OpenAi.buildDiscovery
    isCompatible := OpenAi.isCompatible task }

def select (a : Action) : Except Failure Command := (Task.ofForm? a.formData).map Task.command

def selectDiscovery (r : DiscoveryRequest) : Except Failure Command :=
  (Task.ofDiscovery? r).map Task.command

def credentialProblems : Option Credential → List String
  | some (.bearer token) => if Text.isBlank token.text then ["Missing API key."] else []
  | none => ["Missing API key."]
  | some other => [s!"Unsupported authentication type `{other.kind.describe}`."]

def invalids (d : Datasource) : TextSet :=
  TextSet.ofList (credentialProblems d.credential ++
    (match Request.joinUrl (some (baseUrl d)) none with
    | .ok _ => []
    | .error f => [s!"Invalid URL: {f.message}."]))

/-- The test lists the models. -/
def testRequest (d : Datasource) : Except Failure (Option Request) := do
  let url ← Request.joinUrl (some (baseUrl d)) (some modelsPath)
  pure (some { method := .get, url })

def verdict (status : Nat) : Option String :=
  if 200 ≤ status ∧ status < 300 then none
  else some s!"Authentication failed with status {status}. Check the API key."

def connector : Connector :=
  { name := "openai-plugin", accepts := [.bearer], invalids, select, selectDiscovery,
    testRequest, verdict }

end Relay.OpenAi
