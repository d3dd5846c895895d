/-
# Calls that overlap

Many calls on one access may be going on at once. Each goes on step by step, and between
two of its steps any other call may take some of its own. One step reads or changes one
thing that all share: which entry is under a key, what an entry holds, the lock of an entry,
or the version that comes next. A call that has got hold of an entry keeps to it, also when
another entry has taken its place by then; and a new entry is the call's own until it
is entered. A call that waits may be given up.

Key definitions: `Shared`, `Stage`, `Visit.step`, `System`, `System.move?`, `Reaches`,
`Errand.Agrees`, `System.Agreed`.
-/
import Relay.Access

namespace Relay.Overlap

open Call

/-- Where an entry lies: the key that it was made for, and its first version. -/
structure Cell where
  key : String
  first : Nat
  deriving DecidableEq, Inhabited

/-- Why a credential is put into the pool. -/
inductive Cause where
  /-- There was no entry for it under the key. -/
  | entered
  | renewed
  /-- A revalidation has kept it. -/
  | putBack
  deriving DecidableEq

inductive Event where
  /-- A credential is given a version. -/
  | versioned (c : Connection)
  | put (key : String) (cause : Cause) (c : Connection)
  | dropped (key : String)
  /-- A connection is handed out, under its key if it goes through the pool. -/
  | handed (key : Option String) (c : Connection)
  deriving DecidableEq

/-- What all calls share. -/
structure Shared (σ : Type) where
  outside : σ
  table : Table Cell := []
  cells : Cell → Pool.Entry := fun _ => default
  locked : Cell → Bool := fun _ => false
  next : Nat := 1
  /-- What has happened, and in which call; latest first. -/
  record : List (Nat × Event) := []

namespace Shared

variable {σ : Type} (m : Shared σ) (i : Nat)

def find? (key : String) : Option Pool.Entry := (m.table.find? key).map m.cells

/-- The cell under a key, if its entry is for the identity. -/
def look (key : String) (identity : Option Credential) : Option Cell :=
  (m.table.find? key).bind fun cell =>
    if (m.cells cell).identity = identity then some cell else none

def note (e : Event) : Shared σ := { m with record := (i, e) :: m.record }

/-- Gives the version that comes next to a credential. -/
def version (credential : Option Credential) : Shared σ :=
  { m with
    next := m.next + 1
    record := (i, .versioned ⟨m.next, credential⟩) :: m.record }

/-- Lays an entry into a cell. -/
def lay (cell : Cell) (e : Pool.Entry) : Cell → Pool.Entry :=
  fun other => if other = cell then e else m.cells other

/-- Puts a new entry under the key of its cell. -/
def enter (cell : Cell) (e : Pool.Entry) : Shared σ :=
  { m with
    table := m.table.insert cell.key cell
    cells := m.lay cell e
    record := (i, .put cell.key .entered e.connection) :: m.record }

/-- Puts another version of the credential into a cell. -/
def write (cell : Cell) (cause : Cause) (c : Connection) : Shared σ :=
  { m with
    cells := m.lay cell { m.cells cell with version := c.version, credential := c.credential }
    record := (i, .put cell.key cause c) :: m.record }

def drop (key : String) : Shared σ :=
  { m with table := m.table.erase key, record := (i, .dropped key) :: m.record }

def setLock (cell : Cell) (held : Bool) : Shared σ :=
  { m with locked := fun other => if other = cell then held else m.locked other }

end Shared

/-! ### One call -/

/-- A call that connects to a datasource: with an id through the pool, and `always` if the
entry is to be renewed or put back in any case. -/
structure Visit where
  connector : Connector
  datasource : Datasource
  id : Option String
  always : Bool

namespace Visit

def key? (v : Visit) : Option String := v.id.map (Pool.key v.connector.name)

def identity (v : Visit) : Option Credential := v.datasource.credential.map Credential.identity

end Visit

inductive Errand where
  | connect (v : Visit)
  | drop (key : String)

namespace Errand

/-- The key that the call is under. -/
def key? : Errand → Option String
  | .connect v => v.key?
  | .drop key => some key

/-- Both calls connect under one key with one credential, and at most one of them puts it back:
an OAuth2 credential is renewed under a lock instead. -/
def Agrees : Errand → Errand → Prop
  | .connect v, .connect w => v.key? = w.key? ∧ v.identity = w.identity ∧
    (v.always = false ∨ w.always = false ∨ Credential.kindOf v.identity = .oauth)
  | _, _ => False

def connecting (c : Connector) (d : Datasource) : Errand := .connect ⟨c, d, d.id, false⟩

def revalidating (c : Connector) (d : Datasource) : Errand := .connect ⟨c, d, d.id, d.id.isSome⟩

def connectingUncached (c : Connector) (d : Datasource) : Errand := .connect ⟨c, d, none, false⟩

def invalidating (connector datasource : String) : Errand := .drop (Pool.key connector datasource)

end Errand

/-- How far a call has got. -/
inductive Stage where
  | start
  /-- There is no entry for the credential under the key. -/
  | missing (key : String)
  /-- There is a new entry, which nobody else knows. -/
  | made (cell : Cell) (e : Pool.Entry)
  | entered (cell : Cell)
  /-- The client was read in this version. -/
  | loaded (cell : Cell) (client : OAuthClient) (version : Nat)
  | waiting (cell : Cell) (version : Nat)
  | holding (cell : Cell) (version : Nat)
  | fetching (cell : Cell) (credential : Credential)
  | fetched (cell : Cell) (renewed : Credential)
  /-- The version has been taken, and is yet to be put into the cell. -/
  | renewing (cell : Cell) (version : Nat) (renewed : Credential)
  | releasing (cell : Cell) (result : Except Halt (Option Credential))
  | keeping (cell : Cell)
  | kept (cell : Cell) (credential : Option Credential)
  | puttingBack (cell : Cell) (version : Nat) (credential : Option Credential)
  | ending (cell : Cell) (refreshed : Option Credential)
  | transient (client : OAuthClient)
  | transientDue (client : OAuthClient)
  | done (result : Except Halt (Option Connected))
  | abandoned

namespace Visit

variable {σ : Type} (v : Visit)

/-- Goes on when the entry is refreshed or needs not to be. -/
def settled (cell : Cell) (refreshed : Option Credential) : Stage :=
  if v.always && refreshed.isNone then .keeping cell else .ending cell refreshed

/-- Ends with a connection past the pool. -/
def handOwn (i : Nat) (m : Shared σ) (credential refreshed : Option Credential) :
    Stage × Shared σ :=
  (.done (.ok (some ⟨⟨0, credential⟩, refreshed⟩)), m.note i (.handed none ⟨0, credential⟩))

/-- Begins with a datasource that has passed the check. -/
def begin (i : Nat) (m : Shared σ) : Stage × Shared σ :=
  match v.id with
  | none =>
    match v.datasource.credential with
    | some (.oauth client) => (.transient client, m)
    | credential => handOwn i m credential none
  | some name =>
    match m.look (Pool.key v.connector.name name) v.identity with
    | some cell => (.entered cell, m)
    | none => (.missing (Pool.key v.connector.name name), m)

variable (a : Access σ) (i : Nat) (m : Shared σ)

/-- The next step of the call; none if it waits for a lock, or is over. -/
def step : Stage → Option (Stage × Shared σ)
  | .start =>
    match v.connector.validate v.datasource with
    | .error f => some (.done (.error (.failed f)), m)
    | .ok () => some (v.begin i m)
  | .missing key =>
    some (.made ⟨key, m.next⟩ ⟨v.identity, m.next, v.datasource.credential⟩,
      m.version i v.datasource.credential)
  | .made cell e =>
    match m.look cell.key v.identity with
    | some present => some (.entered present, m)
    | none => some (.entered cell, m.enter i cell e)
  | .entered cell =>
    match (m.cells cell).credential with
    | some (.oauth client) =>
      if v.always then some (.waiting cell (m.cells cell).version, m)
      else some (.loaded cell client (m.cells cell).version, m)
    | _ => some (v.settled cell none, m)
  | .loaded cell client version =>
    match a.due? client (a.network.now m.outside) with
    | none => some (.done (.error .noSuchTime), m)
    | some true => some (.waiting cell version, m)
    | some false => some (v.settled cell none, m)
  | .waiting cell version =>
    if m.locked cell then none else some (.holding cell version, m.setLock cell true)
  | .holding cell version =>
    -- another call may have renewed the token meanwhile
    if (m.cells cell).version ≠ version ∧ v.always = false then
      some (.releasing cell (.ok none), m)
    else
      match (m.cells cell).credential with
      | none => some (.releasing cell (.ok none), m)
      | some credential => some (.fetching cell credential, m)
  | .fetching cell credential =>
    match a.tokens.fetch credential m.outside with
    | (.error halt, outside) => some (.releasing cell (.error halt), { m with outside })
    | (.ok token, outside) => some (.fetched cell (credential.withToken token), { m with outside })
  | .fetched cell renewed => some (.renewing cell m.next renewed, m.version i (some renewed))
  | .renewing cell version renewed =>
    some (.releasing cell (.ok (some renewed)), m.write i cell .renewed ⟨version, some renewed⟩)
  | .releasing cell (.error halt) => some (.done (.error halt), m.setLock cell false)
  | .releasing cell (.ok refreshed) => some (v.settled cell refreshed, m.setLock cell false)
  | .keeping cell => some (.kept cell (m.cells cell).credential, m)
  | .kept cell credential => some (.puttingBack cell m.next credential, m.version i credential)
  | .puttingBack cell version credential =>
    some (.ending cell none, m.write i cell .putBack ⟨version, credential⟩)
  | .ending cell refreshed =>
    some (.done (.ok (some ⟨(m.cells cell).connection, refreshed⟩)),
      m.note i (.handed (some cell.key) (m.cells cell).connection))
  | .transient client =>
    match a.due? client (a.network.now m.outside) with
    | none => some (.done (.error .noSuchTime), m)
    | some true => some (.transientDue client, m)
    | some false => some (handOwn i m (some (.oauth client)) none)
  | .transientDue client =>
    match a.tokens.fetch (.oauth client) m.outside with
    | (.error halt, outside) => some (.done (.error halt), { m with outside })
    | (.ok token, outside) =>
      let renewed := some ((Credential.oauth client).withToken token)
      some (handOwn i { m with outside } renewed renewed)
  | .done _ => none
  | .abandoned => none

end Visit

namespace Errand

variable {σ : Type} (a : Access σ) (i : Nat) (m : Shared σ)

/-- To drop an entry takes one step. -/
def step : Errand → Stage → Option (Stage × Shared σ)
  | .connect v, stage => v.step a i m stage
  | .drop key, .start => some (.done (.ok none), m.drop i key)
  | .drop _, _ => none

end Errand

namespace Stage

/-- The call is neither over nor given up. -/
def isOpen : Stage → Bool
  | .done _ | .abandoned => false
  | _ => true

/-- A call is given up where it waits: before it begins, for a lock, or for a token. A lock
that it holds is released. -/
def abandon? {σ : Type} (m : Shared σ) : Stage → Option (Shared σ)
  | .start | .waiting .. | .transientDue _ => some m
  | .fetching cell _ => some (m.setLock cell false)
  | _ => none

end Stage

/-! ### All calls -/

structure Task where
  errand : Errand
  stage : Stage := .start

/-- All calls, numbered in the order in which they were made. -/
structure System (σ : Type) where
  shared : Shared σ
  tasks : List Task := []

inductive Move (σ : Type) where
  | meanwhile (outside : σ)
  | call (e : Errand)
  /-- The call of this number takes its next step. -/
  | go (i : Nat)
  | abandon (i : Nat)

namespace System

variable {σ : Type}

/-- What becomes of all calls by one move; none if it cannot be made. -/
def move? (a : Access σ) (s : System σ) : Move σ → Option (System σ)
  | .meanwhile outside => some { s with shared := { s.shared with outside } }
  | .call e => some { s with tasks := s.tasks ++ [{ errand := e }] }
  | .go i => do
    let task ← s.tasks[i]?
    let (stage, shared) ← task.errand.step a i s.shared task.stage
    pure { shared, tasks := s.tasks.set i { task with stage } }
  | .abandon i => do
    let task ← s.tasks[i]?
    let shared ← task.stage.abandon? s.shared
    pure { shared, tasks := s.tasks.set i { task with stage := .abandoned } }

/-- What becomes of all calls by moves, one after another. -/
def moves? (a : Access σ) (s : System σ) (moves : List (Move σ)) : Option (System σ) :=
  moves.foldlM (move? a) s

/-- Of the calls under these keys, any two that are going on at once agree. -/
def Agreed (keys : String → Prop) (s : System σ) : Prop :=
  ∀ (i j : Nat) (t u : Task) (key other : String), i ≠ j → s.tasks[i]? = some t →
    s.tasks[j]? = some u → t.stage.isOpen = true → u.stage.isOpen = true →
    t.errand.key? = some key → u.errand.key? = some other → keys key → keys other →
    t.errand.Agrees u.errand

end System

/-- From an empty pool on which nothing was called, moves lead here through states that all
have `P`. -/
inductive Reaches {σ : Type} (a : Access σ) (P : System σ → Prop) : System σ → Prop
  | start (outside : σ) : Reaches a P { shared := { outside } }
  | move {s t : System σ} {m : Move σ} (h : Reaches a P s) (hmove : s.move? a m = some t)
    (hp : P t) : Reaches a P t

end Relay.Overlap
