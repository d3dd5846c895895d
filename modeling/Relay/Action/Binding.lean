/-
# Binding an action to values

Every text of an action may hold placeholders. They are visited in one fixed
order: path, body, next and previous page, the five property lists with each key
before its value, and the texts of the form data in depth. Resolving replaces
each placeholder by the text of its value and notes what was put in; the first
expression without a value ends it.

Key definitions: `Action.visit`, `Action.bindingKeys`, `Action.resolve`,
`MissingValue`, `Inserted`.
-/
import Relay.Template
import Relay.Action.Basic

namespace Relay

/-- A value that was put in for an expression. -/
structure Inserted where
  expression : String
  value : Json
  deriving DecidableEq, Inhabited

/-- No value was given for an expression. -/
structure MissingValue where
  expression : String
  deriving DecidableEq, Repr

def MissingValue.message (e : MissingValue) : String :=
  s!"missing value for binding `{e.expression}`"

namespace Action

variable {m : Type → Type} [Monad m]

mutual

/-- Visits the texts of a value; the names of entries are not among them. -/
def visitJson (f : String → m String) : Json → m Json
  | .str s => do
    let s ← f s
    pure (.str s)
  | .arr items => do
    let items ← visitItems f items
    pure (.arr items)
  | .obj fields => do
    let fields ← visitFields f fields
    pure (.obj fields)
  | j => pure j

def visitItems (f : String → m String) : List Json → m (List Json)
  | [] => pure []
  | x :: xs => do
    let x ← visitJson f x
    let xs ← visitItems f xs
    pure (x :: xs)

def visitFields (f : String → m String) : List (String × Json) → m (List (String × Json))
  | [] => pure []
  | (k, x) :: xs => do
    let x ← visitJson f x
    let xs ← visitFields f xs
    pure ((k, x) :: xs)

end

def visitText? (f : String → m String) : Option String → m (Option String)
  | none => pure none
  | some s => do
    let s ← f s
    pure (some s)

/-- The key of each property is visited before its value. -/
def visitProperties (f : String → m String) : List Property → m (List Property)
  | [] => pure []
  | p :: ps => do
    let key ← f p.key
    let value ← f p.value
    let ps ← visitProperties f ps
    pure (⟨key, value⟩ :: ps)

/-- Visits every text of the action in the order of visits. -/
def visit (f : String → m String) (a : Action) : m Action := do
  let path ← visitText? f a.path
  let body ← visitText? f a.body
  let next ← visitText? f a.next
  let prev ← visitText? f a.prev
  let headers ← visitProperties f a.headers
  let autoHeaders ← visitProperties f a.autoHeaders
  let query ← visitProperties f a.query
  let form ← visitProperties f a.form
  let templates ← visitProperties f a.templates
  let formData ← visitFields f a.formData
  pure { a with path, body, next, prev, headers, autoHeaders, query, form, templates, formData }

/-- Notes the expressions of a text and leaves it as it is. -/
def collect (text : String) : StateM TextSet String := do
  modify fun keys => TextSet.union keys (Template.holes text)
  pure text

/-- The expressions that the action refers to. -/
def bindingKeys (a : Action) : TextSet := ((a.visit collect).run []).2

/-- Notes a value unless its expression is noted already. -/
def note (inserted : List Inserted) (expression : String) (value : Json) : List Inserted :=
  if inserted.any fun i => i.expression == expression then inserted
  else inserted ++ [⟨expression, value⟩]

/-- Notes the values of the expressions in order, up to one that has none. -/
def noteAll (values : Table Json) (inserted : List Inserted) :
    List String → Except MissingValue (List Inserted)
  | [] => .ok inserted
  | e :: es =>
    match values.find? e with
    | none => .error ⟨e⟩
    | some value => noteAll values (note inserted e value) es

abbrev Resolving := StateT (List Inserted) (Except MissingValue)

/-- The text of an expression's value. -/
def boundText (values : Table Json) (expression : String) : String :=
  ((values.find? expression).map Json.bound).getD ""

/-- Replaces the placeholders of one text. A text without any stays as it is. -/
def substitute (values : Table Json) (text : String) : Resolving String := fun inserted => do
  let inserted ← noteAll values inserted (Template.holes text)
  if Template.hasHoles text then
    pure (String.ofList (Template.fill (boundText values) (Template.pieces text.toList)), inserted)
  else pure (text, inserted)

/-- An action without placeholders and what was put in for them, in the order of
first occurrence. -/
structure Resolved where
  action : Action
  inserted : List Inserted
  deriving DecidableEq

/-- Replaces every placeholder, or names the first expression without a value. -/
def resolve (a : Action) (values : Table Json) : Except MissingValue Resolved :=
  ((a.visit (substitute values)).run []).map fun (action, inserted) => ⟨action, inserted⟩

end Action

end Relay
