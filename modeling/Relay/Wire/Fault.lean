/-
# What goes wrong on the way

A call fails on the way when its request cannot be written down, when nobody can
be reached, when the body of the answer breaks off, when it is sent on too often,
when time runs out, or when the body is larger than allowed. Some of the peers that
cannot be reached, and of the bodies that break off, did not answer in the time that
the system gives them; such a fault is one of time as well.

Key definitions: `Wire.Fault`, `Wire.Fault.describe`, `Wire.Fault.failure`.
-/
import Relay.Failure
import Relay.Url.Basic

namespace Relay.Wire

inductive Fault where
  /-- The URL is named where it is to blame. -/
  | unwritable (url : Option Url)
  | unreachable (url : Url) (timedOut : Bool)
  | broken (timedOut : Bool)
  /-- Sent on more often than is followed, the last time from here. -/
  | astray (url : Url)
  | late (after : Span)
  | tooLarge (limit : Nat)
  deriving DecidableEq, Inhabited

namespace Fault

def at? : Option Url → String
  | some url => s!" for url ({url.print})"
  | none => ""

/-- The fault in the words of a report. -/
def reason : Fault → String
  | .unwritable url => "builder error" ++ at? url
  | .unreachable url _ => "error sending request" ++ at? (some url)
  | .broken _ => "error decoding response body"
  | .astray url => "error following redirect" ++ at? (some url)
  | .late after => s!"timeout after {after.describe}"
  | .tooLarge limit => s!"response body exceeds {limit} bytes"

/-- The fault in the words of a log. -/
def describe : Fault → String
  | .late after => (Fault.late after).reason
  | .tooLarge limit => (Fault.tooLarge limit).reason
  | f => "HTTP error: " ++ f.reason

def isLate : Fault → Bool
  | .late _ => true
  | .unreachable _ timedOut | .broken timedOut => timedOut
  | _ => false

/-- The failure of a call with this fault; one of time where the fault is. -/
def failure : Fault → Failure
  | .late after => .timeout after
  | f => if f.isLate then ⟨.timeout, f.reason, none⟩ else .plugin f.reason

end Fault

end Relay.Wire
