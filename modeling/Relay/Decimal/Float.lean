/-
# Doubles in text

A double is written with an optional sign as digits with at most one point among
or around them and an optional exponent, or as a name of infinity or NaN in any
case. It is rounded once.

Key definitions: `float?`.
-/
import Relay.Text.Blank
import Relay.Decimal.Read

namespace Relay.Decimal

/-- An exponent behind its letter. -/
def exponent? (cs : List Char) : Option Int := do
  let (negative, ds) := match cs with
    | '-' :: r => (true, r)
    | '+' :: r => (false, r)
    | _ => (false, cs)
  if ds.isEmpty || !ds.all isDigit then none
  else
    let n : Int := natOfDigits ds
    pure (if negative then -n else n)

/-- A magnitude in digits. -/
def magnitude? (negative : Bool) (cs : List Char) : Option Binary64 := do
  let whole := cs.takeWhile isDigit
  let rest := cs.dropWhile isDigit
  let (fraction, rest) := match rest with
    | '.' :: r => (r.takeWhile isDigit, r.dropWhile isDigit)
    | _ => ([], rest)
  if whole.isEmpty && fraction.isEmpty then none
  else
    let exponent ← match rest with
      | [] => some 0
      | c :: r => if c = 'e' || c = 'E' then exponent? r else none
    let ds := (whole ++ fraction).dropWhile (· = '0')
    pure (exact negative (natOfDigits ds) ds.length (exponent - fraction.length))

/-- The double that a text names. -/
def float? (s : String) : Option Binary64 :=
  let (negative, cs) := match s.toList with
    | '-' :: r => (true, r)
    | '+' :: r => (false, r)
    | cs => (false, cs)
  let word := String.ofList (Text.lowerChars cs)
  if word == "inf" || word == "infinity" then
    some (Binary64.ofRatio negative (Nat.pow 2 1100) 1)
  else if word == "nan" then some ⟨0x7FF8000000000000⟩
  else magnitude? negative cs

end Relay.Decimal
