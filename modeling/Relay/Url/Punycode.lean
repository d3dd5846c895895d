/-
# Punycode

A label with characters outside ASCII is written in ASCII: its ASCII characters
first, then the others in order of their code points, each as the distance from
the one before in digits of base 36 whose thresholds adapt.

Key definitions: `encode`, `decode?`.
-/

namespace Relay.Url.Punycode

/-- 0 to 25 are letters, 26 to 35 digits. -/
def digit (n : Nat) : Char := if n < 26 then Char.ofNat (97 + n) else Char.ofNat (22 + n)

def digitValue? (c : Char) : Option Nat :=
  if 'a' ≤ c && c ≤ 'z' then some (c.toNat - 97)
  else if 'A' ≤ c && c ≤ 'Z' then some (c.toNat - 65)
  else if '0' ≤ c && c ≤ '9' then some (c.toNat - 22)
  else none

/-- The threshold of the digit at position `k`. -/
def threshold (k bias : Nat) : Nat :=
  if k ≤ bias then 1 else if bias + 26 ≤ k then 26 else k - bias

theorem threshold_pos (k bias : Nat) : 1 ≤ threshold k bias := by
  unfold threshold
  split
  · omega
  · split <;> omega

def adaptLoop (delta k : Nat) : Nat × Nat :=
  if 455 < delta then adaptLoop (delta / 35) (k + 36) else (delta, k)
termination_by delta
decreasing_by omega

/-- The bias after a delta has been written. -/
def adapt (delta count : Nat) (first : Bool) : Nat :=
  let d := if first then delta / 700 else delta / 2
  let (d, k) := adaptLoop (d + d / count) 0
  k + 36 * d / (d + 38)

/-- A delta in digits from position `k` on. -/
def digits (bias k q : Nat) : List Char :=
  let t := threshold k bias
  if q < t then [digit q]
  else digit (t + (q - t) % (36 - t)) :: digits bias (k + 36) ((q - t) / (36 - t))
termination_by q
decreasing_by
  have h1 := threshold_pos k bias
  calc (q - threshold k bias) / (36 - threshold k bias)
      ≤ q - threshold k bias := Nat.div_le_self _ _
    _ < q := by omega

structure Writing where
  out : List Char
  delta : Nat
  bias : Nat
  done : Nat

/-- One pass over the label for the code point `n`. -/
def pass (n basic : Nat) (label : List Char) (w : Writing) : Writing :=
  label.foldl (fun w c =>
    if c.toNat < n then { w with delta := w.delta + 1 }
    else if c.toNat = n then
      { out := w.out ++ digits w.bias 36 w.delta
        delta := 0
        bias := adapt w.delta (w.done + 1) (w.done == basic)
        done := w.done + 1 }
    else w) w

/-- The code points of a label from `n` on, ascending. -/
def nextPoint? (n : Nat) (label : List Char) : Option Nat :=
  ((label.map Char.toNat).filter (n ≤ ·)).min?

def passes : Nat → Nat → Nat → List Char → Writing → Writing
  | 0, _, _, _, w => w
  | fuel + 1, n, basic, label, w =>
    match nextPoint? n label with
    | none => w
    | some m =>
      let w := pass m basic label { w with delta := w.delta + (m - n) * (w.done + 1) }
      passes fuel (m + 1) basic label { w with delta := w.delta + 1 }

def encode (label : List Char) : List Char :=
  let ascii := label.filter fun c => c.toNat < 128
  let lead := if ascii.isEmpty then [] else ascii ++ ['-']
  (passes label.length 128 ascii.length label ⟨lead, 0, 72, ascii.length⟩).out

/-- Reads one delta: its digits up to the first below its threshold. -/
def readDelta : List Char → (bias k weight sum : Nat) → Option (Nat × List Char)
  | [], _, _, _, _ => none
  | c :: cs, bias, k, weight, sum => do
    let d ← digitValue? c
    let sum := sum + d * weight
    let t := threshold k bias
    if d < t then pure (sum, cs) else readDelta cs bias (k + 36) (weight * (36 - t)) sum

/-- Puts the characters that the deltas stand for into `out`. -/
def readPoints : Nat → List Char → (n i bias : Nat) → (first : Bool) → List Char →
    Option (List Char)
  | 0, _, _, _, _, _, _ => none
  | _ + 1, [], _, _, _, _, out => some out
  | fuel + 1, cs, n, i, bias, first, out => do
    let (delta, cs) ← readDelta cs bias 36 1 0
    let size := out.length + 1
    let n := n + (i + delta) / size
    let place := (i + delta) % size
    if 0x10FFFF < n || (0xD800 ≤ n && n ≤ 0xDFFF) then none
    else
      readPoints fuel cs n (place + 1) (adapt delta size first) false
        (out.take place ++ Char.ofNat n :: out.drop place)

/-- The label behind its ASCII form; the last hyphen ends its ASCII characters. -/
def decode? (cs : List Char) : Option (List Char) :=
  let tail := (cs.reverse.takeWhile (· ≠ '-')).reverse
  let head := cs.take (cs.length - tail.length - 1)
  readPoints (cs.length + 1) tail 128 0 72 true head

end Relay.Url.Punycode
