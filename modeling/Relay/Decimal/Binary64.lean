/-
# Double precision numbers as bit patterns

A double is kept as its 64 bits, so that equality is decidable and every
operation is exact arithmetic on natural numbers followed by one rounding.

Key definitions: `Binary64`, `Binary64.ofRatio`, `Binary64.parts`.
-/

namespace Relay

/-- An IEEE 754 double, as its bits. -/
structure Binary64 where
  bits : UInt64
  deriving DecidableEq, Repr, Inhabited

namespace Binary64

/-- What a bit pattern stands for: `mantissa * 2 ^ (power - 1074)` with a sign,
an infinity, or no number. -/
inductive Parts where
  | finite (negative : Bool) (mantissa power : Nat)
  | infinite (negative : Bool)
  | nan
  deriving Repr, DecidableEq

def signBit : Nat := Nat.pow 2 63
def infinityBits : Nat := 0x7FF0000000000000

def parts (x : Binary64) : Parts :=
  let n := x.bits.toNat
  let negative := signBit ≤ n
  let rest := n % signBit
  let exponent := rest / Nat.pow 2 52
  let fraction := rest % Nat.pow 2 52
  if exponent = 2047 then
    if fraction = 0 then .infinite negative else .nan
  else if exponent = 0 then .finite negative fraction 0
  else .finite negative (Nat.pow 2 52 + fraction) (exponent - 1)

/-- The quotient rounded to the nearest natural number, a half to the even one. -/
def roundHalfEven (num den : Nat) : Nat :=
  let q := num / den
  let r := num % den
  if 2 * r < den then q
  else if den < 2 * r then q + 1
  else if q % 2 = 0 then q else q + 1

/-- The bits of the double nearest to `num / den`, a tie going to the even one;
the bits of infinity where the quotient is beyond the largest double. -/
def ratioBits (num den : Nat) : Nat :=
  if num = 0 then 0
  else
    -- 1074 + 52 + log2 of the quotient, one too large at most
    let top := 1126 + Nat.log2 num
    let down := Nat.log2 den
    -- the power of two that the last place of the mantissa counts, plus 1074
    let guess := (top - down) - 104
    let scaled (power : Nat) : Nat × Nat :=
      if 1074 ≤ power then (num, den * Nat.pow 2 (power - 1074))
      else (num * Nat.pow 2 (1074 - power), den)
    let power :=
      if guess = 0 then 0
      else
        let (n, d) := scaled guess
        if n / d < Nat.pow 2 52 then guess - 1 else guess
    let (n, d) := scaled power
    min (power * Nat.pow 2 52 + roundHalfEven n d) infinityBits

/-- The double nearest to `num / den`, with a sign. -/
def ofRatio (negative : Bool) (num den : Nat) : Binary64 :=
  ⟨UInt64.ofNat ((if negative then signBit else 0) + ratioBits num den)⟩

def ofNat (n : Nat) : Binary64 := ofRatio false n 1

def isInfinite (x : Binary64) : Bool :=
  match x.parts with
  | .infinite _ => true
  | _ => false

def isZero (x : Binary64) : Bool :=
  match x.parts with
  | .finite _ 0 _ => true
  | _ => false

def isFinite (x : Binary64) : Bool :=
  match x.parts with
  | .finite .. => true
  | _ => false

def negate (x : Binary64) : Binary64 := ⟨x.bits ^^^ 0x8000000000000000⟩

/-- A finite magnitude as a quotient. -/
def magnitude (mantissa power : Nat) : Nat × Nat :=
  if 1074 ≤ power then (mantissa * Nat.pow 2 (power - 1074), 1)
  else (mantissa, Nat.pow 2 (1074 - power))

/-- The rounded product of two positive doubles; infinity stays. -/
def mulPos (x y : Binary64) : Binary64 :=
  match x.parts, y.parts with
  | .finite _ m p, .finite _ n q =>
    let a := magnitude m p
    let b := magnitude n q
    ofRatio false (a.1 * b.1) (a.2 * b.2)
  | _, _ => ⟨UInt64.ofNat infinityBits⟩

/-- The rounded quotient of two positive doubles, the second not zero. -/
def divPos (x y : Binary64) : Binary64 :=
  match x.parts, y.parts with
  | .finite _ m p, .finite _ n q =>
    let a := magnitude m p
    let b := magnitude n q
    ofRatio false (a.1 * b.2) (a.2 * b.1)
  | _, _ => ⟨UInt64.ofNat infinityBits⟩

end Binary64

end Relay
