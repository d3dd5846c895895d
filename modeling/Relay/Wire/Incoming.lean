/-
# What comes back

An answer arrives as a status, headers and a body in chunks, and may break off.
It is read to its end within a limit; how it was cut into chunks does not matter.
Header values that are no plain text are passed over, and the values of one name
are joined.

Key definitions: `Wire.Incoming`, `Wire.readHeaders`, `Wire.readBody`,
`Wire.Incoming.read`, `Wire.Incoming.readAll`.
Key theorem: `readBody_eq`.
-/
import Relay.Reply
import Relay.Wire.Fault

namespace Relay.Wire

open Relay.Text.Utf8 (Bytes)

/-- How the body of an answer ends. -/
inductive Ending where
  | complete
  | broken (timedOut : Bool)
  | late
  deriving DecidableEq, Repr, Inhabited

structure Incoming where
  status : Nat
  /-- In order of arrival, names in lower case. -/
  headers : List (String × Bytes) := []
  chunks : List Bytes := []
  ending : Ending := .complete
  deriving DecidableEq, Inhabited

/-- A header value of visible ASCII characters, spaces and tabs, as text. -/
def readable? (value : Bytes) : Option String :=
  if value.all fun b => b = 9 || (0x20 ≤ b && b < 0x7F) then
    some (String.ofList (value.map fun b => Char.ofNat b.toNat))
  else none

/-- Enters one value under a name, behind the values it has. -/
def addHeader (t : Table String) (name value : String) : Table String :=
  t.insert name (match t.find? name with
    | some old => old ++ ", " ++ value
    | none => value)

/-- The readable values by name. -/
def readHeaders (headers : List (String × Bytes)) : Table String :=
  headers.foldl (fun t h =>
    match readable? h.2 with
    | some value => addHeader t h.1 value
    | none => t) []

/-- Adds chunk after chunk while the body stays within the limit. -/
def readBody (limit : Nat) (body : Bytes) : List Bytes → Except Fault Bytes
  | [] => .ok body
  | chunk :: rest =>
    if limit < body.length + chunk.length then .error (.tooLarge limit)
    else readBody limit (body ++ chunk) rest

/-- However a body is cut into chunks, it is read if it is within the limit as a whole. -/
theorem readBody_eq {limit : Nat} : ∀ (chunks : List Bytes) (body : Bytes),
    body.length ≤ limit → readBody limit body chunks =
      if (body ++ chunks.flatten).length ≤ limit then .ok (body ++ chunks.flatten)
      else .error (.tooLarge limit)
  | [], body, h => by
    rw [readBody, List.flatten_nil, List.append_nil, if_pos h]
  | chunk :: rest, body, h => by
    rw [readBody, List.flatten_cons]
    by_cases hchunk : limit < body.length + chunk.length
    · have hlong : ¬(body ++ (chunk ++ rest.flatten)).length ≤ limit := by
        simp only [List.length_append]
        omega
      rw [if_pos hchunk, if_neg hlong]
    · have hshort : (body ++ chunk).length ≤ limit := by
        rw [List.length_append]
        omega
      rw [if_neg hchunk, readBody_eq rest (body ++ chunk) hshort, List.append_assoc]

/-- The reply with this body, if the answer came to its end in time. -/
def Incoming.finish (a : Incoming) (body : Bytes) (timeout : Span) : Except Fault Reply :=
  match a.ending with
  | .complete => .ok { status := a.status, headers := readHeaders a.headers, body }
  | .broken timedOut => .error (.broken timedOut)
  | .late => .error (.late timeout)

/-- The whole answer, of any size. -/
def Incoming.readAll (a : Incoming) (timeout : Span) : Except Fault Reply :=
  a.finish a.chunks.flatten timeout

/-- The answer, whose body may not be larger than the limit. -/
def Incoming.read (a : Incoming) (limit : Nat) (timeout : Span) : Except Fault Reply := do
  a.finish (← readBody limit [] a.chunks) timeout

end Relay.Wire
