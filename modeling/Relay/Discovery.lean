/-
# Discovery

A discovery walks from idle over a built and a sent request to one of three ends.
Its answer is all or nothing: the entries of all compatible items that have one,
in ascending order of their labels, or a failure.

Key definitions: `Discovery.Stage`, `Discovery.collect`, `Discovery.Stage.ofOutcome`.
-/
import Relay.Command

namespace Relay.Discovery

inductive Stage where
  | idle | requestBuilt | sent | success | authFailure | structureFailure
  deriving DecidableEq, Repr, Inhabited

namespace Stage

def all : List Stage := [.idle, .requestBuilt, .sent, .success, .authFailure, .structureFailure]

def name : Stage → String
  | .idle => "idle"
  | .requestBuilt => "request_built"
  | .sent => "sent"
  | .success => "success"
  | .authFailure => "auth_error"
  | .structureFailure => "structure_error"

def isTerminal : Stage → Bool
  | .success | .authFailure | .structureFailure => true
  | _ => false

/-- Where a walk with this outcome ends. -/
def ofOutcome : Except Failure Discovered → Stage
  | .ok _ => .success
  | .error f => if f.kind = .authentication then .authFailure else .structureFailure

end Stage

/-- Entries without a label come first, the others by the code points of the label. -/
def labelLe (a b : Table String) : Bool :=
  match a.find? "label", b.find? "label" with
  | none, _ => true
  | some _, none => false
  | some x, some y => !(y < x)

/-- The entries of the items, sorted. -/
def entries (command : Command) (items : List Json) : List (Table String) :=
  ((items.filter command.isCompatible).filterMap command.entry?).mergeSort labelLe

/-- The items that a reply holds for a command. -/
def items (command : Command) (reply : Reply) : Except Failure (List Json) :=
  if reply.status = 401 ∨ reply.status = 403 then
    .error (.authentication s!"datasource rejected the credentials (status {reply.status})")
  else if !reply.isSuccess then
    .error (.structural s!"discovery request failed with status {reply.status}")
  else match Reply.jsonOf? reply.body with
    | none => .error (.structural s!"discovery response is not JSON: {Json.malformed}")
    | some body =>
      match (body.field? command.field).bind Json.items? with
      | none => .error (.structural s!"discovery response has no `{command.field}` array")
      | some items => .ok items

/-- The choices that a reply holds for a command. -/
def collect (command : Command) (reply : Reply) : Except Failure Discovered :=
  (items command reply).map fun items => { entries := entries command items }

end Relay.Discovery
