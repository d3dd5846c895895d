/-
# Access to datasources

Before a datasource is called, its credential is checked and, if it is an OAuth2
credential whose token is missing or expires soon, renewed. Datasources with an id
share their credential through the pool; others, and tests, leave the pool alone.

Key definitions: `Access`, `Access.connect`, `Access.revalidate`,
`Access.connectUncached`, `Access.send`.
-/
import Relay.Connector.Basic
import Relay.Credential.Grant

namespace Relay

open Call Wire

/-- The ways to the outside, and how many seconds before they expire tokens are
renewed. -/
structure Access (σ : Type) where
  network : Network σ
  tokens : TokenSource σ
  skew : Int

/-- A connection, and the credential that was renewed for it, for the caller to
store. -/
structure Connected where
  connection : Connection
  refreshed : Option Credential := none
  deriving DecidableEq, Inhabited

namespace Access

variable {σ : Type} (a : Access σ)

/-- Sends one request over a connection and reads the answer. -/
def send (c : Connection) (r : Request) (timeout : Span) (limit : Nat) :
    Call σ (Except Fault Reply) where
  run := fun s =>
    let s := { s with record := .request c r timeout limit :: s.record }
    match a.network.send (.ofRequest c r) timeout s.outside with
    | (.ok answer, outside) => (.ok (answer.read limit timeout), { s with outside })
    | (.error fault, outside) => (.ok (.error fault), { s with outside })

/-- Whether a client needs a token at an instant: it has none, or one that expires soon. -/
def due? (client : OAuthClient) (now : Instant) : Option Bool :=
  match client.token with
  | none => some true
  | some token => token.isExpired? now a.skew

/-- Whether a token must be fetched before the credential is used. -/
def needsToken : Credential → Call σ Bool
  | .oauth client =>
    match client.token with
    | none => pure true
    | some token => do
      let s ← get
      ofTime? (token.isExpired? (a.network.now s.outside) a.skew)
  | _ => pure false

/-- The credential with a token that was fetched for it just now. -/
def renew (credential : Credential) : Call σ Credential where
  run := fun s =>
    match a.tokens.fetch credential s.outside with
    | (answer, outside) =>
      (answer.map fun token => credential.withToken token,
       { s with outside, record := .token credential answer :: s.record })

/-- Connects without the pool. -/
def connectTransient (d : Datasource) : Call σ Connected :=
  match d.credential with
  | none => pure ⟨⟨0, none⟩, none⟩
  | some credential => do
    if ← a.needsToken credential then
      let renewed ← a.renew credential
      pure ⟨⟨0, some renewed⟩, some renewed⟩
    else pure ⟨⟨0, some credential⟩, none⟩

/-- The connection that the pool has under a key. -/
def pooled (key : String) : Call σ Connection := do
  let s ← get
  pure (((s.pool.find? key).map Pool.Entry.connection).getD {})

/-- Renews the OAuth2 credential of an entry, if it must be or `always`. -/
def refresh (key : String) (always : Bool) : Call σ (Option Credential) := do
  let current ← pooled key
  match current.credential with
  | some (.oauth client) => do
    let due ← if always then pure true else a.needsToken (.oauth client)
    if due then
      let renewed ← a.renew (.oauth client)
      modifyPool fun p => p.replace key (some renewed)
      pure (some renewed)
    else pure none
  | _ => pure none

/-- A connection to a datasource that the connector accepts; through the pool if the
datasource has an id. -/
def connect (c : Connector) (d : Datasource) : Call σ Connected := do
  ofExcept (c.validate d)
  match d.id with
  | none => a.connectTransient d
  | some id => do
    let key := Pool.key c.name id
    modifyPool fun p => p.enter key d.credential
    let refreshed ← a.refresh key false
    pure ⟨← pooled key, refreshed⟩

/-- As `connect`, but what the pool has gets a new version, and a token is fetched in
any case. -/
def revalidate (c : Connector) (d : Datasource) : Call σ Connected := do
  ofExcept (c.validate d)
  match d.id with
  | none => a.connectTransient d
  | some id => do
    let key := Pool.key c.name id
    modifyPool fun p => p.enter key d.credential
    let refreshed ← a.refresh key true
    if refreshed.isNone then
      let current ← pooled key
      modifyPool fun p => p.replace key current.credential
    pure ⟨← pooled key, refreshed⟩

/-- As `connect`, but never through the pool. -/
def connectUncached (c : Connector) (d : Datasource) : Call σ Connected := do
  ofExcept (c.validate d)
  a.connectTransient d

/-- Makes the test call of a connector over a connection. -/
def test (c : Connector) (d : Datasource) (connection : Connection) (timeout : Span)
    (limit : Nat) : Call σ TestReport :=
  match c.testRequest d with
  | .error f => pure (.failure f.message)
  | .ok none => pure {}
  | .ok (some r) => do
    match ← a.send connection r timeout limit with
    | .error fault => pure (.failure fault.failure.message)
    | .ok reply =>
      match c.verdict reply.status with
      | none => pure {}
      | some message => pure (.failure message)

end Access

/-- Drops what the pool has for a datasource; whether it had anything. -/
def Access.invalidate {σ : Type} (connector datasource : String) : Call σ Bool := do
  let key := Pool.key connector datasource
  let s ← get
  modifyPool fun p => p.drop key
  pure (s.pool.find? key).isSome

end Relay
