/-
# The registry of connectors

Connectors are registered under their trimmed names. A blank name and a name that
is taken are refused, so the first connector of a name keeps it.

Key definitions: `Registry`, `Registry.register`, `Registry.find?`.
-/
import Relay.Connector.Basic

namespace Relay

structure Registry where
  connectors : Table Connector := []

namespace Registry

/-- Enters a connector under its trimmed name. -/
def register (r : Registry) (c : Connector) : Except Failure Registry :=
  let name := Text.trim c.name
  if name == "" then .error (.configuration "plugin name is blank")
  else if r.connectors.contains name then
    .error (.configuration s!"plugin `{name}` is already registered")
  else .ok ⟨r.connectors.insert name c⟩

/-- The connector of exactly this name. -/
def find? (r : Registry) (name : String) : Option Connector := r.connectors.find? name

def contains (r : Registry) (name : String) : Bool := (r.find? name).isSome

/-- The names in ascending order. -/
def names (r : Registry) : List String := r.connectors.keys

def size (r : Registry) : Nat := r.connectors.length

/-- The connector, or the failure that there is none. -/
def require (r : Registry) (name : String) : Except Failure Connector :=
  match r.find? name with
  | some c => .ok c
  | none => .error (.unsupported s!"no plugin registered as `{name}`")

end Registry

end Relay
