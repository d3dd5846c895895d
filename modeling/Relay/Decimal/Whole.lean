/-
# Whole numbers in text

A whole number is written with an optional sign and one or more ASCII digits,
nothing else. It must lie in the range of the word it is read into.

Key definitions: `signed?`, `unsigned?`.
-/
import Relay.Decimal.Read

namespace Relay.Decimal

/-- Digits only, at least one. -/
def digits? (cs : List Char) : Option Nat :=
  if !cs.isEmpty && cs.all isDigit then some (natOfDigits cs) else none

/-- A signed 64-bit number. -/
def signed? (s : String) : Option Int64 := do
  let n : Int ← match s.toList with
    | '-' :: r => (digits? r).map fun n => -(n : Int)
    | '+' :: r => (digits? r).map fun n => (n : Int)
    | cs => (digits? cs).map fun n => (n : Int)
  if -(Int.pow 2 63) ≤ n ∧ n < Int.pow 2 63 then some (Int64.ofInt n) else none

/-- An unsigned 64-bit number; a plus sign may stand before it. -/
def unsigned? (s : String) : Option UInt64 := do
  let n ← match s.toList with
    | '+' :: r => digits? r
    | cs => digits? cs
  if n < Nat.pow 2 64 then some (UInt64.ofNat n) else none

end Relay.Decimal
