/-
# Calls

A call works on the pool, on what lies outside, and on the record of what was
handed out. It ends with a value, or it halts: with a failure, because it had to
name a time that no calendar has, or because it waits for a permit that never
comes. What it did before it halted stays done.

Key definitions: `Call`, `Call.State`, `Call.Event`, `Call.Halt`, `Call.outcome`.
Key theorems: `run_pure`, `run_bind`, `run_outcome`.
-/
import Relay.Pool

namespace Relay

namespace Call

inductive Halt where
  | failed (f : Failure)
  | noSuchTime
  | noPermit
  deriving DecidableEq, Inhabited

/-- What was handed out: a request for a token with what came of it, or a request
over a connection with the time and the size that it may take. -/
inductive Event where
  | token (credential : Credential) (answer : Except Halt Token)
  | request (c : Connection) (r : Request) (timeout : Span) (limit : Nat)

structure State (σ : Type) where
  outside : σ
  pool : Pool := {}
  /-- Latest first. -/
  record : List Event := []

end Call

open Call

/-- A call over the states `σ` of the outside. -/
structure Call (σ α : Type) where
  run : State σ → Except Halt α × State σ

namespace Call

variable {σ α β : Type}

def bind (x : Call σ α) (f : α → Call σ β) : Call σ β where
  run := fun s =>
    match x.run s with
    | (.ok a, s) => (f a).run s
    | (.error h, s) => (.error h, s)

instance : Monad (Call σ) where
  pure := fun a => ⟨fun s => (.ok a, s)⟩
  bind := bind

/-- Ends the call. -/
def halt (h : Halt) : Call σ α := ⟨fun s => (.error h, s)⟩

def fail (f : Failure) : Call σ α := halt (.failed f)

/-- A computation that touches nothing. -/
def ofExcept : Except Failure α → Call σ α
  | .ok a => pure a
  | .error f => fail f

/-- A value that only a calendar without end always has. -/
def ofTime? : Option α → Call σ α
  | some a => pure a
  | none => halt .noSuchTime

def get : Call σ (State σ) := ⟨fun s => (.ok s, s)⟩

def modify (f : State σ → State σ) : Call σ Unit := ⟨fun s => (.ok (), f s)⟩

def modifyPool (f : Pool → Pool) : Call σ Unit := modify fun s => { s with pool := f s.pool }

/-- A failure becomes a value; the other ways to halt stay. -/
def outcome (x : Call σ α) : Call σ (Except Failure α) where
  run := fun s =>
    match x.run s with
    | (.ok a, s) => (.ok (.ok a), s)
    | (.error (.failed f), s) => (.ok (.error f), s)
    | (.error h, s) => (.error h, s)

@[simp] theorem run_pure (a : α) (s : State σ) : (pure a : Call σ α).run s = (.ok a, s) := rfl

@[simp] theorem run_bind (x : Call σ α) (f : α → Call σ β) (s : State σ) :
    (x >>= f).run s =
      match x.run s with
      | (.ok a, s) => (f a).run s
      | (.error h, s) => (.error h, s) := rfl

@[simp] theorem run_halt (h : Halt) (s : State σ) : (halt h : Call σ α).run s = (.error h, s) :=
  rfl

@[simp] theorem run_get (s : State σ) : (get : Call σ _).run s = (.ok s, s) := rfl

@[simp] theorem run_modify (f : State σ → State σ) (s : State σ) :
    (modify f).run s = (.ok (), f s) := rfl

theorem run_outcome (x : Call σ α) (s : State σ) :
    x.outcome.run s =
      match x.run s with
      | (.ok a, s) => (.ok (.ok a), s)
      | (.error (.failed f), s) => (.ok (.error f), s)
      | (.error h, s) => (.error h, s) := rfl

end Call

end Relay
