/-
# Instants and spans

An instant is a second since 1970-01-01T00:00:00Z and the nanoseconds in it; a
leap second is the second before it with more than a billion nanoseconds. The
calendar reaches from the year -262143 to the year 262142, and arithmetic that
leaves it has no result.

Key definitions: `Instant`, `Instant.shift?`, `Instant.le`, `Span`, `Instant.until`.
-/

namespace Relay

structure Instant where
  second : Int
  nano : Nat
  deriving DecidableEq, Repr, Inhabited

namespace Calendar

/-- Days from 1970-01-01 to a date of the proleptic Gregorian calendar. Years are
counted from March, so that the leap day ends them. -/
def dayNumber (year : Int) (month day : Nat) : Int :=
  let y := if month ≤ 2 then year - 1 else year
  let era := y.fdiv 400
  let yearOfEra := y - era * 400
  let m : Int := if month ≤ 2 then (month : Int) + 9 else (month : Int) - 3
  let dayOfYear := (153 * m + 2).fdiv 5 + day - 1
  let dayOfEra := yearOfEra * 365 + yearOfEra.fdiv 4 - yearOfEra.fdiv 100 + dayOfYear
  era * 146097 + dayOfEra - 719468

/-- Year, month and day of a day number. -/
def dateOf (n : Int) : Int × Nat × Nat :=
  let z := n + 719468
  let era := z.fdiv 146097
  let dayOfEra := z - era * 146097
  let yearOfEra :=
    (dayOfEra - dayOfEra.fdiv 1460 + dayOfEra.fdiv 36524 - dayOfEra.fdiv 146096).fdiv 365
  let dayOfYear := dayOfEra - (365 * yearOfEra + yearOfEra.fdiv 4 - yearOfEra.fdiv 100)
  let mp := (5 * dayOfYear + 2).fdiv 153
  let day := dayOfYear - (153 * mp + 2).fdiv 5 + 1
  let month := if mp < 10 then mp + 3 else mp - 9
  let year := yearOfEra + era * 400 + (if month ≤ 2 then 1 else 0)
  (year, month.toNat, day.toNat)

def isLeap (year : Int) : Bool :=
  year.fmod 4 == 0 && (year.fmod 100 != 0 || year.fmod 400 == 0)

def daysIn (year : Int) (month : Nat) : Nat :=
  match month with
  | 2 => if isLeap year then 29 else 28
  | 4 | 6 | 9 | 11 => 30
  | _ => 31

def firstYear : Int := -262143
def lastYear : Int := 262142

/-- The first and the last second of the calendar. -/
def firstSecond : Int := dayNumber firstYear 1 1 * 86400
def lastSecond : Int := dayNumber lastYear 12 31 * 86400 + 86399

end Calendar

namespace Instant

def inRange (t : Instant) : Bool :=
  Calendar.firstSecond ≤ t.second && t.second ≤ Calendar.lastSecond

/-- The instant `seconds` later, if the calendar has it. Leaving a leap second
forwards starts from its own second, backwards from the next. -/
def shift? (t : Instant) (seconds : Int) : Option Instant :=
  let moved : Instant :=
    if t.nano < 1000000000 then ⟨t.second + seconds, t.nano⟩
    else if 0 < seconds then ⟨t.second + seconds, t.nano - 1000000000⟩
    else if seconds < 0 then ⟨t.second + 1 + seconds, t.nano - 1000000000⟩
    else t
  if moved.inRange then some moved else none

/-- Not later than. -/
def le (t u : Instant) : Bool :=
  t.second < u.second || (t.second == u.second && t.nano ≤ u.nano)

theorem le_trans {t u v : Instant} (h : t.le u = true) (h' : u.le v = true) : t.le v = true := by
  simp only [le, Bool.or_eq_true, Bool.and_eq_true, decide_eq_true_eq, beq_iff_eq] at *
  omega

/-- Whole seconds from the first instant to the second, toward zero. -/
def wholeSecondsTo (t u : Instant) : Int :=
  let nanos := (u.second - t.second) * 1000000000 + ((u.nano : Int) - t.nano)
  nanos.tdiv 1000000000

end Instant

/-- A length of time in microseconds. -/
structure Span where
  micros : Nat
  deriving DecidableEq, Repr, Inhabited

/-- The time from the first instant to the second; none if the clock was put back. -/
def Instant.until (t u : Instant) : Span :=
  ⟨(((u.second - t.second) * 1000000000 + ((u.nano : Int) - t.nano)).tdiv 1000).toNat⟩

namespace Span

/-- What is left of a span after another. -/
def less (s t : Span) : Span := ⟨s.micros - t.micros⟩

def ofMillis (n : Nat) : Span := ⟨n * 1000⟩
def millis (s : Span) : Nat := s.micros / 1000

/-- A number with the fraction `part / 10 ^ places`, trailing zeros left out. -/
def decimal (whole part places : Nat) : List Char :=
  let digits := Nat.toDigits 10 part
  let padded := List.replicate (places - digits.length) '0' ++ digits
  let kept := (padded.reverse.dropWhile (· = '0')).reverse
  Nat.toDigits 10 whole ++ (if kept.isEmpty then [] else '.' :: kept)

/-- The span in the largest unit that leaves a whole part: seconds, milliseconds,
microseconds, or nanoseconds for nothing at all. -/
def describe (s : Span) : String :=
  if 1000000 ≤ s.micros then
    String.ofList (decimal (s.micros / 1000000) (s.micros % 1000000) 6 ++ ['s'])
  else if 1000 ≤ s.micros then
    String.ofList (decimal (s.micros / 1000) (s.micros % 1000) 3 ++ ['m', 's'])
  else if 0 < s.micros then
    String.ofList (decimal s.micros 0 0 ++ ['µ', 's'])
  else "0ns"

end Span

end Relay
