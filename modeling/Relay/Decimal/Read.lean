/-
# Reading decimals

Two readings of a decimal text as a double. The exact one rounds once, from the
number that the digits stand for. The stepwise one is what JSON numbers go
through: the digits that fit in 64 bits are rounded to a double, which is then
multiplied or divided by a rounded power of ten.

Key definitions: `exact`, `stepwise`, `Significand`.
-/
import Relay.Decimal.Binary64

namespace Relay.Decimal

def isDigit (c : Char) : Bool := '0' ≤ c && c ≤ '9'
def digitValue (c : Char) : Nat := c.toNat - 48

/-- The number that decimal digits stand for. -/
def natOfDigits (ds : List Char) : Nat := ds.foldl (fun n c => 10 * n + digitValue c) 0

/-- The double nearest to `n * 10 ^ exponent`. Exponents far outside the range of
doubles are decided without the power. -/
def exact (negative : Bool) (n : Nat) (digits : Nat) (exponent : Int) : Binary64 :=
  if n = 0 then Binary64.ofRatio negative 0 1
  else if 400 < exponent + digits then Binary64.ofRatio negative (Nat.pow 2 1100) 1
  else if exponent + digits < -400 then Binary64.ofRatio negative 0 1
  else if 0 ≤ exponent then Binary64.ofRatio negative (n * Nat.pow 10 exponent.toNat) 1
  else Binary64.ofRatio negative n (Nat.pow 10 (-exponent).toNat)

/-- The leading digits of a number as far as they fit in 64 bits, and the power
of ten that the last of them counts. -/
structure Significand where
  value : Nat
  exponent : Int
  deriving Repr, DecidableEq

def fits (value : Nat) (c : Char) : Bool := 10 * value + digitValue c < Nat.pow 2 64

/-- Takes in the digits before the point. From the first that does not fit, each
further one counts a power of ten. -/
def wholeDigits (value : Nat) : List Char → Significand
  | [] => ⟨value, 0⟩
  | c :: cs =>
    if fits value c then wholeDigits (10 * value + digitValue c) cs
    else ⟨value, cs.length + 1⟩

/-- Takes in the digits behind the point up to the first that does not fit. -/
def fractionDigits (s : Significand) : List Char → Significand
  | [] => s
  | c :: cs =>
    if fits s.value c then
      fractionDigits ⟨10 * s.value + digitValue c, s.exponent - 1⟩ cs
    else s

/-- The double nearest to a power of ten up to `10 ^ 308`. -/
def powerOfTen (n : Nat) : Binary64 := Binary64.ofNat (Nat.pow 10 n)

/-- Scales down by `10 ^ n` in strides of at most `10 ^ 308`. -/
def scaleDown : Nat → Binary64 → Nat → Binary64
  | 0, x, _ => x
  | fuel + 1, x, n =>
    if n ≤ 308 then x.divPos (powerOfTen n)
    else if x.isZero then x
    else scaleDown fuel (x.divPos (powerOfTen 308)) (n - 308)

/-- A positive number from its leading digits and exponent; none where it is
beyond the largest double. -/
def stepwise (value : Nat) (exponent : Int) : Option Binary64 :=
  let x := Binary64.ofNat value
  if 0 ≤ exponent then
    if exponent ≤ 308 then
      let y := x.mulPos (powerOfTen exponent.toNat)
      if y.isInfinite then none else some y
    else if x.isZero then some x
    else none
  else
    -- after eight strides nothing is left of any number
    some (scaleDown 8 x (-exponent).toNat)

end Relay.Decimal
