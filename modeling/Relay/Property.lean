/-
# Properties

Headers, query parameters and form fields are lists of properties: order and
repeated keys count. A property whose key is blank is never sent.

Key definitions: `Property`, `Property.isBlank`, `Property.stripBlank`,
`Property.layered`, `Property.mergeAuto`.
-/
import Relay.Text.Blank
import Relay.Json.Record

namespace Relay

structure Property where
  key : String := ""
  value : String := ""
  deriving DecidableEq, Repr, Inhabited

namespace Property

def isBlank (p : Property) : Bool := Text.isBlank p.key

/-- The property has this name: blanks around it and the case of ASCII letters do
not count. The name is given trimmed. -/
def hasName (p : Property) (name : String) : Bool :=
  Text.foldName p.key == Text.lower name

/-- The properties that have a key. -/
def stripBlank (ps : List Property) : List Property := ps.filter fun p => !p.isBlank

/-- Datasource properties first, those with a key, and all of the action's after. -/
def layered (datasource action : List Property) : List Property :=
  stripBlank datasource ++ action

/-- Some property has the name of `p`. -/
def present (ps : List Property) (p : Property) : Bool :=
  ps.any fun q => Text.foldName q.key == Text.foldName p.key

/-- Adds generated headers in order, each unless its name is there already,
whether the user's or an earlier generated one. -/
def mergeAuto (headers : List Property) (auto : List Property) : List Property :=
  auto.foldl (fun merged p => if present merged p then merged else merged ++ [p]) headers

def toJson (p : Property) : Json :=
  .obj [("key", .str p.key), ("value", .str p.value)]

def listJson (ps : List Property) : Json := .arr (ps.map toJson)

def ofDraft? (d : Draft) : Option Property := do
  match ← d.slots? ["key", "value"] with
  | [key, value] =>
    pure { key := ← key.orElse "" Draft.text?, value := ← value.orElse "" Draft.text? }
  | _ => none

def listOfDraft? : Draft → Option (List Property) := Draft.list? ofDraft?

end Property

/-- The verb of a request. -/
inductive Method where
  | get | post | put | patch | delete | head | options
  deriving DecidableEq, Repr, Inhabited

namespace Method

def all : List Method := [.get, .post, .put, .patch, .delete, .head, .options]

def name : Method → String
  | .get => "GET"
  | .post => "POST"
  | .put => "PUT"
  | .patch => "PATCH"
  | .delete => "DELETE"
  | .head => "HEAD"
  | .options => "OPTIONS"

/-- GET and HEAD are sent without a body. -/
def allowsBody : Method → Bool
  | .get | .head => false
  | _ => true

def ofDraft? (d : Draft) : Option Method := do
  let word ← d.word?
  all.find? fun m => m.name == word

end Method

end Relay
