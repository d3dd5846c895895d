/-
# Invocations and discovery requests

An invocation names the action to run, the values for its placeholders and the
neighbouring page that is wanted. A discovery request asks a connector for a list
of choices, such as the models of a service; its answer is a list of flat entries.

Key definitions: `Invocation`, `DiscoveryRequest`, `Discovered`, `TestReport`.
-/
import Relay.Action.Stored
import Relay.Credential.Stored

namespace Relay

structure Invocation where
  actionId : Option String := none
  /-- Values by expression. -/
  params : Table Json := []
  page : Option PageLink := none
  deriving DecidableEq, Inhabited

namespace Invocation

def toJson (i : Invocation) : Json :=
  .obj [("actionId", Json.ofText? i.actionId),
        ("paginationField", Json.ofText? (i.page.map PageLink.name)),
        ("params", .obj i.params)]

def ofDraft? (d : Draft) : Option Invocation := do
  match ← d.slots? ["actionId", "params", "paginationField"] with
  | [actionId, params, page] =>
    pure {
      actionId := ← actionId.orElse none (Slot.nullable Draft.text?)
      params := ← params.orElse [] (Draft.table? Draft.value?)
      page := ← page.orElse none (Slot.nullable PageLink.ofDraft?) }
  | _ => none

end Invocation

structure DiscoveryRequest where
  requestType : String := ""
  parameters : Table Json := []
  deriving DecidableEq, Inhabited

namespace DiscoveryRequest

def toJson (r : DiscoveryRequest) : Json :=
  .obj [("parameters", .obj r.parameters), ("requestType", .str r.requestType)]

def ofDraft? (d : Draft) : Option DiscoveryRequest := do
  match ← d.slots? ["requestType", "parameters"] with
  | [requestType, parameters] =>
    pure {
      requestType := ← requestType.orElse "" Draft.text?
      parameters := ← parameters.orElse [] (Draft.table? Draft.value?) }
  | _ => none

end DiscoveryRequest

/-- Choices, each a small table such as label and value, and the credential that
was renewed to get them. -/
structure Discovered where
  entries : List (Table String) := []
  refreshed : Option Credential := none
  deriving DecidableEq, Inhabited

namespace Discovered

def entryJson (entry : Table String) : Json := .obj (entry.mapValues Json.str)

/-- The renewed credential is handed over apart and never shown here. -/
def toJson (d : Discovered) : Json := .obj [("trigger", .arr (d.entries.map entryJson))]

def ofDraft? (d : Draft) : Option Discovered := do
  match ← d.slots? ["trigger"] with
  | [entries] =>
    pure { entries := ← entries.required (Draft.list? (Draft.table? Draft.text?)) }
  | _ => none

/-- Hands over the renewed credential, once. -/
def takeRefreshed (d : Discovered) : Option Credential × Discovered :=
  (d.refreshed, { d with refreshed := none })

end Discovered

/-- What is wrong with a datasource; nothing means that it works. -/
structure TestReport where
  invalids : TextSet := []
  deriving DecidableEq, Inhabited

namespace TestReport

def failure (message : String) : TestReport := ⟨[message]⟩

def isSuccess (r : TestReport) : Bool := r.invalids.isEmpty

def toJson (r : TestReport) : Json := .obj [("invalids", .arr (r.invalids.map Json.str))]

def ofDraft? (d : Draft) : Option TestReport := do
  match ← d.slots? ["invalids"] with
  | [invalids] => pure ⟨TextSet.ofList (← invalids.required (Draft.list? Draft.text?))⟩
  | _ => none

end TestReport

end Relay
