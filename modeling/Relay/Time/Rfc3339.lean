/-
# Timestamps

Instants are written in UTC with as many groups of three fraction digits as they
need. Reading is lenient: the date and the time may be parted by `T` or a space,
fields may have fewer digits and blanks before them, and any offset is accepted.

Key definitions: `Instant.print`, `Instant.parse?`.
-/
import Relay.Text.Blank
import Relay.Time.Instant
import Relay.Decimal.Read

namespace Relay.Instant

open Relay.Text Relay.Decimal

/-- A number in `width` digits at least. -/
def padded (width n : Nat) : List Char :=
  let ds := Nat.toDigits 10 n
  List.replicate (width - ds.length) '0' ++ ds

/-- Years outside four digits carry a sign. -/
def printYear (year : Int) : List Char :=
  if 0 ≤ year ∧ year ≤ 9999 then padded 4 year.toNat
  else (if year < 0 then '-' else '+') :: padded 4 year.natAbs

/-- No fraction, or three, six or nine digits of it. -/
def printFraction (nano : Nat) : List Char :=
  if nano = 0 then []
  else if nano % 1000000 = 0 then '.' :: padded 3 (nano / 1000000)
  else if nano % 1000 = 0 then '.' :: padded 6 (nano / 1000)
  else '.' :: padded 9 nano

/-- The timestamp in UTC. -/
def print (t : Instant) : String :=
  let day := t.second.fdiv 86400
  let second := (t.second - day * 86400).toNat
  let (year, month, dayOfMonth) := Calendar.dateOf day
  let leap := t.nano / 1000000000
  String.ofList <|
    printYear year ++ '-' :: padded 2 month ++ '-' :: padded 2 dayOfMonth ++
    'T' :: padded 2 (second / 3600) ++ ':' :: padded 2 (second / 60 % 60) ++
    ':' :: padded 2 (second % 60 + leap) ++ printFraction (t.nano % 1000000000) ++ ['Z']

/-! ### Reading -/

def skipBlanks (cs : List Char) : List Char := cs.dropWhile isBlankChar

/-- A number of one to `width` digits, blanks before it. -/
def field? (width : Nat) (cs : List Char) : Option (Nat × List Char) :=
  let cs := skipBlanks cs
  let ds := (cs.takeWhile isDigit).take width
  if ds.isEmpty then none else some (natOfDigits ds, cs.drop ds.length)

/-- A year of up to four digits, or of any length behind a sign. -/
def year? (cs : List Char) : Option (Int × List Char) :=
  match skipBlanks cs with
  | '-' :: r =>
    let ds := r.takeWhile isDigit
    if ds.isEmpty then none else some (-(natOfDigits ds : Int), r.drop ds.length)
  | '+' :: r =>
    let ds := r.takeWhile isDigit
    if ds.isEmpty then none else some ((natOfDigits ds : Int), r.drop ds.length)
  | cs => (field? 4 cs).map fun (n, r) => ((n : Int), r)

/-- One character, blanks before it. -/
def mark? (c : Char) (cs : List Char) : Option (List Char) :=
  match skipBlanks cs with
  | d :: r => if c = d then some r else none
  | [] => none

/-- Nanoseconds behind a point: nine digits count. -/
def fraction? (cs : List Char) : Option (Nat × List Char) :=
  match cs with
  | '.' :: r =>
    let ds := r.takeWhile isDigit
    if ds.isEmpty then none
    else
      let kept := ds.take 9
      some (natOfDigits kept * Nat.pow 10 (9 - kept.length), r.drop ds.length)
  | cs => some (0, cs)

/-- An offset from UTC in seconds. -/
def offset? (cs : List Char) : Option (Int × List Char) :=
  let signed (negative : Bool) (r : List Char) : Option (Int × List Char) :=
    match r with
    | h1 :: h2 :: r =>
      if isDigit h1 && isDigit h2 then
        let hours := natOfDigits [h1, h2]
        match r.dropWhile (fun c => c = ':' || isBlankChar c) with
        | m1 :: m2 :: r =>
          if isDigit m1 && isDigit m2 && digitValue m1 < 6 then
            let seconds : Int := hours * 3600 + natOfDigits [m1, m2] * 60
            if seconds < 86400 then some (if negative then -seconds else seconds, r) else none
          else none
        | _ => none
      else none
    | _ => none
  match cs with
  | 'Z' :: r | 'z' :: r => some (0, r)
  | '+' :: r => signed false r
  | '-' :: r | '−' :: r => signed true r
  | a :: b :: c :: r =>
    if lowerChars [a, b, c] = "utc".toList then some (0, r) else none
  | _ => none

/-- The instant that a timestamp names. -/
def parse? (s : String) : Option Instant := do
  let (year, cs) ← year? s.toList
  let cs ← mark? '-' cs
  let (month, cs) ← field? 2 cs
  let cs ← mark? '-' cs
  let (day, cs) ← field? 2 cs
  let cs ← match cs with
    | 'T' :: r | 't' :: r | ' ' :: r => some r
    | _ => none
  let (hour, cs) ← field? 2 cs
  let cs ← mark? ':' cs
  let (minute, cs) ← field? 2 cs
  let cs ← mark? ':' cs
  let (second, cs) ← field? 2 cs
  let (nano, cs) ← fraction? cs
  let (offset, cs) ← offset? (skipBlanks cs)
  if !(skipBlanks cs).isEmpty then failure
  if year < Calendar.firstYear || Calendar.lastYear < year then failure
  if month < 1 || 12 < month || day < 1 || Calendar.daysIn year month < day then failure
  if 23 < hour || 59 < minute || 60 < second then failure
  let leap := if second = 60 then 1 else 0
  let inDay := hour * 3600 + minute * 60 + (second - leap)
  let t : Instant :=
    ⟨Calendar.dayNumber year month day * 86400 + inDay - offset, nano + leap * 1000000000⟩
  if t.inRange then some t else none

end Relay.Instant
