/-
# Commands

A command is one way in which a connector turns an action into a request and reads
what comes back. It may also build a request that discovers choices, and says
where in the answer they stand and what each of them is.

Key definitions: `Command`, `Command.idEntry?`.
-/
import Relay.Datasource
import Relay.Invocation
import Relay.Reply
import Relay.Request

namespace Relay

/-- The entry of an item with a textual `id`, which is its label and its value. -/
def Command.idEntry? (item : Json) : Option (Table String) := do
  let id ← (← item.field? "id").text?
  pure [("label", id), ("value", id)]

/-- The failure of a command that discovers nothing. -/
def Command.noDiscovery (name : String) (request : DiscoveryRequest) : Failure :=
  .unsupported s!"command `{name}` does not support trigger request `{request.requestType}`"

structure Command where
  name : String
  /-- The request for an action that is bound and sanitized. -/
  build : Action → Datasource → Invocation → Except Failure Request
  buildDiscovery : Datasource → DiscoveryRequest → Except Failure Request :=
    fun _ request => .error (Command.noDiscovery name request)
  format : Format := .json
  /-- The field of a discovery answer that holds the items. -/
  field : String := "data"
  isCompatible : Json → Bool := fun _ => true
  entry? : Json → Option (Table String) := Command.idEntry?

end Relay
