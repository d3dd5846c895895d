/-
# The shortest decimal that reads back

Among the decimals that round to a given double, the one with the fewest digits
is chosen; of two with equally many the nearer, of two equally near the one with
the even last digit. For each number of digits only the two neighbours of the
value on that decimal grid can be the answer.

Key definitions: `Shortest.digits`, `Shortest.Layout`, `Shortest.render`.
-/
import Relay.Decimal.Binary64

namespace Relay.Decimal.Shortest

/-- A positive quotient of natural numbers. -/
structure Ratio where
  num : Nat
  den : Nat

def Ratio.le (a b : Ratio) : Bool := a.num * b.den ≤ b.num * a.den
def Ratio.lt (a b : Ratio) : Bool := a.num * b.den < b.num * a.den

/-- The distance between two ratios. -/
def Ratio.dist (a b : Ratio) : Ratio :=
  ⟨(a.num * b.den - b.num * a.den) + (b.num * a.den - a.num * b.den), a.den * b.den⟩

/-- The reals that round to one double: between the midpoints to its neighbours,
which belong to it iff its mantissa is even. -/
structure Interval where
  low : Ratio
  high : Ratio
  closed : Bool

def Interval.contains (i : Interval) (x : Ratio) : Bool :=
  if i.closed then i.low.le x && x.le i.high else i.low.lt x && x.lt i.high

/-- `n * 2 ^ (power - 1076)`, in quarters of the last place. -/
def quarters (n power : Nat) : Ratio :=
  if 1076 ≤ power then ⟨n * Nat.pow 2 (power - 1076), 1⟩ else ⟨n, Nat.pow 2 (1076 - power)⟩

/-- The interval of `mantissa * 2 ^ (power - 1074)`. Below a power of two the
neighbour is half as far. -/
def interval (mantissa power : Nat) : Interval :=
  let m := 4 * mantissa
  let below := if mantissa = Nat.pow 2 52 ∧ 0 < power then 1 else 2
  ⟨quarters (m - below) power, quarters (m + 2) power, mantissa % 2 == 0⟩

/-- `n * 10 ^ exponent` as a ratio. -/
def scaled (n : Nat) (exponent : Int) : Ratio :=
  if 0 ≤ exponent then ⟨n * Nat.pow 10 exponent.toNat, 1⟩ else ⟨n, Nat.pow 10 (-exponent).toNat⟩

/-- The decimal exponent of the first digit of a positive ratio, searched near
an estimate from the bit lengths. -/
def leadingExponent (x : Ratio) : Int :=
  let bits : Int := (Nat.log2 x.num : Int) - Nat.log2 x.den
  let start := (bits * 30103).fdiv 100000 + 1
  let atMost (e : Int) : Bool := (scaled 1 e).le x
  if atMost start then start
  else if atMost (start - 1) then start - 1
  else if atMost (start - 2) then start - 2
  else start - 3

/-- The better of the two neighbours of `x` on the grid of multiples of
`10 ^ place` that lies in the interval. -/
def onGrid (i : Interval) (x : Ratio) (place : Int) : Option Nat :=
  let unit := scaled 1 place
  let below := (x.num * unit.den) / (x.den * unit.num)
  let lowHit := below ≠ 0 && i.contains (scaled below place)
  let highHit := i.contains (scaled (below + 1) place)
  if lowHit && highHit then
    let d0 := x.dist (scaled below place)
    let d1 := x.dist (scaled (below + 1) place)
    if d0.lt d1 then some below
    else if d1.lt d0 then some (below + 1)
    else if below % 2 = 0 then some below else some (below + 1)
  else if lowHit then some below
  else if highHit then some (below + 1)
  else none

/-- Tries grids from coarse to fine. -/
def search (i : Interval) (x : Ratio) : Nat → Int → Nat × Int
  | 0, place => ((x.num * (scaled 1 place).den) / (x.den * (scaled 1 place).num), place)
  | k + 1, place =>
    match onGrid i x place with
    | some n => (n, place)
    | none => search i x k (place - 1)

/-- The digits of a positive double `mantissa * 2 ^ (power - 1074)` as a natural
number, and the power of ten that its last digit counts. -/
def digits (mantissa power : Nat) : Nat × Int :=
  let x := quarters (4 * mantissa) power
  search (interval mantissa power) x 17 (leadingExponent x)

/-- How a decimal is laid out as text. -/
structure Layout where
  /-- Positional text is written for first-digit exponents from here … -/
  plainFrom : Int
  /-- … to here, and the exponent form elsewhere. -/
  plainTo : Int
  /-- A whole number ends in this text in positional form. -/
  whole : String
  /-- Stands before a positive exponent. -/
  plus : String

def zeros (n : Nat) : List Char := List.replicate n '0'

/-- Positional text of `ds * 10 ^ place`. -/
def plain (whole : String) (ds : List Char) (place : Int) : List Char :=
  if 0 ≤ place then ds ++ zeros place.toNat ++ whole.toList
  else
    let frac := (-place).toNat
    if frac < ds.length then
      ds.take (ds.length - frac) ++ '.' :: ds.drop (ds.length - frac)
    else ['0', '.'] ++ zeros (frac - ds.length) ++ ds

/-- Exponent form: one digit before the point. -/
def scientific (plus : String) (ds : List Char) (first : Int) : List Char :=
  let body := match ds with
    | [] => []
    | [d] => [d]
    | d :: rest => d :: '.' :: rest
  let exponent := (toString first.natAbs).toList
  body ++ 'e' :: (if first < 0 then '-' :: exponent else plus.toList ++ exponent)

/-- The text of digits that count `10 ^ place`. -/
def layoutDigits (l : Layout) (n : Nat) (place : Int) : List Char :=
  let ds := Nat.toDigits 10 n
  let first := place + ds.length - 1
  if l.plainFrom ≤ first ∧ first < l.plainTo then plain l.whole ds place
  else scientific l.plus ds first

/-- Trailing zeros of the digits move into the place. -/
def strip : Nat → Nat → Int → Nat × Int
  | 0, n, place => (n, place)
  | k + 1, n, place => if n ≠ 0 ∧ n % 10 = 0 then strip k (n / 10) (place + 1) else (n, place)

/-- The shortest text of a finite double; none of the others has one. -/
def render (l : Layout) (x : Binary64) : Option String :=
  match x.parts with
  | .finite negative mantissa power =>
    let body :=
      if mantissa = 0 then '0' :: l.whole.toList
      else
        let (n, place) := digits mantissa power
        let (n, place) := strip 20 n place
        layoutDigits l n place
    some (String.ofList (if negative then '-' :: body else body))
  | _ => none

end Relay.Decimal.Shortest
