/-
# Networks

A network is the client that speaks HTTP together with all that it speaks to. It
carries requests for at most a given time; what it does is up to it and to the state of
what lies outside, which every exchange may change. The outside also has the time.
Two rules are the client's own and are taken as they come: where an answer sends its
request on to, if it is followed, and how the bytes of a body become text.

Key definitions: `Wire.Network`, `Wire.Exchange`, `Wire.Network.ask`,
`Wire.Network.send`, `Wire.Network.withoutRedirects`, `Wire.unreachable`.
-/
import Relay.Wire.Incoming
import Relay.Wire.Outgoing

namespace Relay.Wire

open Relay.Text.Utf8 (Bytes)

/-- What becomes of a request that was written down. -/
inductive Exchange where
  | answered (answer : Incoming)
  | unreachable (timedOut : Bool)
  | late
  deriving DecidableEq, Inhabited

/-- The text of a body in UTF-8: a byte order mark is dropped, faults are replaced. -/
def utf8Text (body : Bytes) : String :=
  match (Text.Utf8.decodeLossy body).toList with
  | '\uFEFF' :: cs => String.ofList cs
  | cs => String.ofList cs

/-- A network over the states `σ` of the outside. -/
structure Network (σ : Type) where
  now : σ → Instant
  exchange : Outgoing → Span → σ → Exchange × σ
  /-- The request that an answer sends its request on to; none if the answer is not
  followed. -/
  redirect? : Outgoing → Incoming → Option Outgoing := fun _ _ => none
  /-- The text of a body, in the encoding that its headers and its byte order mark tell. -/
  text : List (String × Bytes) → Bytes → String := fun _ body => utf8Text body

namespace Network

variable {σ : Type} (net : Network σ)

/-- The same network with a client that hands every answer over. -/
def withoutRedirects : Network σ := { net with redirect? := fun _ _ => none }

/-- At most so many redirections are followed for one request. -/
def maxRedirects : Nat := 10

/-- Makes one exchange in what is `left` of the time of a request. -/
def ask (timeout left : Span) (o : Outgoing) (outside : σ) : Except Fault Incoming × σ :=
  match o.fault? with
  | some fault => (.error fault, outside)
  | none =>
    match net.exchange o left outside with
    | (.answered answer, outside) => (.ok answer, outside)
    | (.unreachable timedOut, outside) => (.error (.unreachable (target o.url) timedOut), outside)
    | (.late, outside) => (.error (.late timeout), outside)

/-- Asks, and while the answers are followed and `more` redirections are allowed, goes
where they send it. -/
def follow (timeout : Span) (more : Nat) (left : Span) (o : Outgoing) (outside : σ) :
    Except Fault Incoming × σ :=
  match net.ask timeout left o outside with
  | (.error fault, later) => (.error fault, later)
  | (.ok answer, later) =>
    match net.redirect? o answer with
    | none => (.ok answer, later)
    | some next =>
      match more with
      | 0 => (.error (.astray (target o.url)), later)
      | more + 1 =>
        follow timeout more (left.less ((net.now outside).until (net.now later))) next later

/-- Sends a request and waits for the head of the answer that the client hands over. -/
def send (o : Outgoing) (timeout : Span) (outside : σ) : Except Fault Incoming × σ :=
  net.follow timeout maxRedirects timeout o outside

end Network

/-- A network that reaches nobody. -/
def unreachable (now : Instant) : Network Unit where
  now := fun _ => now
  exchange := fun _ _ outside => (.unreachable false, outside)

end Relay.Wire
