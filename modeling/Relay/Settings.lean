/-
# Settings

Limits and defaults that all executions share.

Key definitions: `Settings`, `Settings.ofText?`, `Settings.defaultTimeout`, `Settings.skew?`.
-/
import Relay.Time.Instant
import Relay.Toml.Read

namespace Relay

structure Settings where
  /-- In milliseconds; for actions without a timeout of their own. -/
  timeoutMillis : Nat := 10000
  /-- Longer bodies are refused, in bytes. -/
  maxResponse : Nat := 5242880
  /-- So many executions may run at once. -/
  maxConcurrent : Nat := 64
  /-- Whether an answer that sends a request on is followed. -/
  followRedirects : Bool := true
  /-- Tokens are renewed so many seconds before they expire. -/
  skewSeconds : Int := 60
  deriving DecidableEq, Repr, Inhabited

namespace Settings

/-- The largest word of 64 bits. -/
def maxWord : Nat := Nat.pow 2 64 - 1

def defaultTimeout (s : Settings) : Span := Span.ofMillis s.timeoutMillis

/-- Spans of seconds have to be countable in milliseconds. -/
def maxSkew : Int := 9223372036854775

/-- The skew, if it is a span. -/
def skew? (s : Settings) : Option Int :=
  if -maxSkew ≤ s.skewSeconds ∧ s.skewSeconds ≤ maxSkew then some s.skewSeconds else none

/-- At most so many permits can be handed out. -/
def maxPermits : Nat := (Nat.pow 2 64 - 1) / 8

/-- A timeout that is too long for 64 bits of milliseconds becomes the longest. -/
def withTimeout (timeout : Span) (s : Settings) : Settings :=
  { s with timeoutMillis := min timeout.millis maxWord }

def withMaxResponse (bytes : Nat) (s : Settings) : Settings := { s with maxResponse := bytes }

def withMaxConcurrent (n : Nat) (s : Settings) : Settings := { s with maxConcurrent := n }

def withoutRedirects (s : Settings) : Settings := { s with followRedirects := false }

/-! ### Settings in a configuration text -/

/-- What a key holds, or a default where it is missing; none if it holds something else. -/
def setting? {α : Type} (entries : Toml.Entries) (name : String) (default : α)
    (read : Toml.Item → Option α) : Option α :=
  match entries.lookup name with
  | some item => read item
  | none => some default

def count? : Toml.Item → Option Nat
  | .int n => if 0 ≤ n then some n.toNat else none
  | _ => none

def int? : Toml.Item → Option Int
  | .int n => some n
  | _ => none

def flag? : Toml.Item → Option Bool
  | .flag b => some b
  | _ => none

/-- Settings from a configuration text. A key that is missing has its default, and
keys that name no setting are passed over. -/
def ofText? (text : String) : Option Settings := do
  let entries ← Toml.parse? text
  let default : Settings := {}
  let timeoutMillis ← setting? entries "default_timeout_ms" default.timeoutMillis count?
  let maxResponse ← setting? entries "max_response_size_bytes" default.maxResponse count?
  let maxConcurrent ← setting? entries "max_concurrent_executions" default.maxConcurrent count?
  let followRedirects ← setting? entries "follow_redirects" default.followRedirects flag?
  let skewSeconds ← setting? entries "token_expiry_skew_seconds" default.skewSeconds int?
  pure { timeoutMillis, maxResponse, maxConcurrent, followRedirects, skewSeconds }

end Settings

end Relay
