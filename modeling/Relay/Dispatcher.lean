/-
# The dispatcher

The dispatcher runs actions and discoveries. What can be found wrong without the
network is found first: the connector must be known, the action is bound and
sanitized, and its request is built, before any token is fetched. One request is
sent for an action, and sent on where its answers say so and the settings follow them;
its snapshot is in the report whatever comes back.

Key definitions: `Dispatcher`, `Dispatcher.networkFor`, `Dispatcher.create?`,
`Dispatcher.plan`, `Dispatcher.execute`, `Dispatcher.executeOver`, `Dispatcher.discover`,
`Dispatcher.discoverOver`, `Dispatcher.testDatasource`, `Dispatcher.problems`.
-/
import Relay.Access
import Relay.Discovery
import Relay.Registry
import Relay.Settings

namespace Relay

open Call Wire

structure Dispatcher (σ : Type) extends Access σ where
  registry : Registry
  settings : Settings

/-- An action that is ready to be sent. -/
structure Plan where
  action : Action
  inserted : List Inserted
  command : Command
  request : Request

namespace Dispatcher

variable {σ : Type}

/-- The network with a client that follows redirections only if the settings say so. -/
def networkFor (settings : Settings) (network : Network σ) : Network σ :=
  if settings.followRedirects then network else network.withoutRedirects

/-- A dispatcher that fetches tokens over its own network; none for settings that no
dispatcher can keep. -/
def create? (registry : Registry) (settings : Settings) (network : Network σ) :
    Option (Dispatcher σ) := do
  let skew ← settings.skew?
  if Settings.maxPermits < settings.maxConcurrent then none
  else
    let network := networkFor settings network
    let tokens := clientCredentials network settings.defaultTimeout
    pure { network, tokens, skew, registry, settings }

variable (d : Dispatcher σ)

/-- Calls are made one after another, so all permits are free between them. -/
def permits : Nat := d.settings.maxConcurrent

/-- Holds a permit from here to the end of the call. -/
def takePermit : Call σ Unit := if d.permits = 0 then halt .noPermit else pure ()

def connector (name : String) : Call σ Connector := ofExcept (d.registry.require name)

/-- Binds and sanitizes an action, picks its command and builds its request. -/
def plan (c : Connector) (i : Invocation) (ds : Datasource) (action : Action) :
    Except Failure Plan := do
  let bound ← (action.resolve i.params).mapError fun e => Failure.missingBinding e.expression
  let action := bound.action.sanitize
  let command ← c.select action
  let request ← command.build action ds i
  pure { action, inserted := bound.inserted, command, request }

/-- Sends a planned request over a connection and reports what came of it. -/
def run (p : Plan) (connection : Connection) : Call σ Report := do
  let snapshot := connection.snapshot p.request p.inserted
  let timeout := p.action.effectiveTimeout d.settings.defaultTimeout
  match ← d.send connection p.request timeout d.settings.maxResponse with
  | .ok reply => pure (reply.classify p.command.format (some snapshot))
  | .error fault => pure (Report.ofFailure fault.failure (some snapshot))

/-- Everything before the request of an action is sent. -/
def prepare (name : String) (i : Invocation) (ds : Datasource) (action : Action) :
    Call σ (Plan × Connected) := do
  let c ← d.connector name
  d.takePermit
  let p ← ofExcept (plan c i ds action)
  pure (p, ← d.connect c ds)

/-- Runs an action against a datasource. -/
def execute (name : String) (i : Invocation) (ds : Datasource) (action : Action) :
    Call σ Report := do
  match ← (d.prepare name i ds action).outcome with
  | .error f => pure (Report.ofFailure f none)
  | .ok (p, connected) => do
    let report ← d.run p connected.connection
    pure { report with refreshed := connected.refreshed }

/-- Everything before the request of an action is sent over a connection that the
caller holds; its credential must suit the connector. -/
def prepareOver (name : String) (connection : Connection) (i : Invocation) (ds : Datasource)
    (action : Action) : Call σ Plan := do
  let c ← d.connector name
  ofExcept (Credential.check c.accepts connection.credential)
  d.takePermit
  ofExcept (plan c i ds action)

/-- Runs an action over a connection that the caller holds. -/
def executeOver (name : String) (connection : Connection) (i : Invocation) (ds : Datasource)
    (action : Action) : Call σ Report := do
  match ← (d.prepareOver name connection i ds action).outcome with
  | .error f => pure (Report.ofFailure f none)
  | .ok p => d.run p connection

/-- Everything that is wrong with a datasource, found without the network. -/
def problems (name : String) (ds : Datasource) : TextSet :=
  match d.registry.require name with
  | .ok c => c.problems ds
  | .error f => [f.message]

/-- Tests a datasource that has no problems with one small call. The pool is left
alone. -/
def testDatasource (name : String) (ds : Datasource) : Call σ TestReport := do
  let attempt : Call σ TestReport := do
    let c ← d.connector name
    let invalids := c.problems ds
    if !invalids.isEmpty then pure ⟨invalids⟩
    else
      d.takePermit
      let connected ← d.connectUncached c ds
      d.test c ds connected.connection d.settings.defaultTimeout d.settings.maxResponse
  match ← attempt.outcome with
  | .ok report => pure report
  | .error f => pure (.failure f.message)

/-- Picks the command of a discovery and builds its request. -/
def planDiscovery (c : Connector) (ds : Datasource) (request : DiscoveryRequest) :
    Except Failure (Command × Request) := do
  let command ← c.selectDiscovery request
  pure (command, ← command.buildDiscovery ds request)

/-- Sends the request of a discovery and collects the choices. -/
def collect (command : Command) (r : Request) (connection : Connection) : Call σ Discovered := do
  d.takePermit
  match ← d.send connection r d.settings.defaultTimeout d.settings.maxResponse with
  | .error fault => fail fault.failure
  | .ok reply => ofExcept (Discovery.collect command reply)

/-- Discovers choices for a datasource. -/
def discover (name : String) (ds : Datasource) (request : DiscoveryRequest) :
    Call σ Discovered := do
  let c ← d.connector name
  let (command, r) ← ofExcept (planDiscovery c ds request)
  let connected ← d.connect c ds
  let found ← d.collect command r connected.connection
  pure { found with refreshed := connected.refreshed }

/-- Discovers choices over a connection that the caller holds. -/
def discoverOver (name : String) (connection : Connection) (ds : Datasource)
    (request : DiscoveryRequest) : Call σ Discovered := do
  let c ← d.connector name
  ofExcept (Credential.check c.accepts connection.credential)
  let (command, r) ← ofExcept (planDiscovery c ds request)
  d.collect command r connection

end Dispatcher

end Relay
