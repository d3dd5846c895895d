/-
# Connectors

A connector knows one family of datasources: which credentials they take, what
makes their configuration invalid, which command runs an action, and how to find
out whether they answer.

Key definitions: `Connector`.
-/
import Relay.Command
import Relay.Credential.Check

namespace Relay

/-- The failure of a connector that discovers nothing. -/
def Connector.noDiscovery (name : String) (request : DiscoveryRequest) : Failure :=
  .unsupported s!"plugin `{name}` does not support trigger request `{request.requestType}`"

/-- A test call answers with success. -/
def Connector.plainVerdict (status : Nat) : Option String :=
  if 200 ≤ status ∧ status < 300 then none
  else some s!"datasource answered the test request with status {status}"

structure Connector where
  name : String
  /-- Kinds of credential that are accepted; none named means any. -/
  accepts : List Credential.Kind := []
  /-- What is wrong with a datasource as it is configured. -/
  invalids : Datasource → TextSet
  /-- The command for an action that is bound and sanitized. -/
  select : Action → Except Failure Command
  selectDiscovery : DiscoveryRequest → Except Failure Command :=
    fun request => .error (Connector.noDiscovery name request)
  /-- The call that tests a datasource, if there is one. -/
  testRequest : Datasource → Except Failure (Option Request) := fun _ => .ok none
  /-- What a status of the test call tells against the datasource. -/
  verdict : Nat → Option String := Connector.plainVerdict

namespace Connector

/-- Refuses a datasource whose credential the connector does not take or whose
configuration it finds invalid. Nothing is sent for it. -/
def validate (c : Connector) (d : Datasource) : Except Failure Unit := do
  Credential.check c.accepts d.credential
  let invalids := c.invalids d
  if invalids.isEmpty then pure ()
  else
    let listed := Text.joinText "; " invalids
    let f := Failure.configuration s!"datasource is invalid: {listed}"
    throw (f.withDetail (.arr (invalids.map Json.str)))

/-- Everything that is wrong with a datasource: what the connector finds, and the
message about its credential. -/
def problems (c : Connector) (d : Datasource) : TextSet :=
  match Credential.check c.accepts d.credential with
  | .ok () => c.invalids d
  | .error f => TextSet.insert (c.invalids d) f.message

end Connector

end Relay
