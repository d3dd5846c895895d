/-
# JSON as text

Values are written without blanks, entries in their order. In strings only the
quote, the backslash and characters below U+0020 are escaped.

Key definitions: `Json.print`, `Json.bound`, `Json.floatLayout`.
-/
import Relay.Json.Basic
import Relay.Decimal.Shortest

namespace Relay.Json

/-- Doubles are written in positional form with first-digit exponents from -5 to
15, where whole numbers end in `.0`, and otherwise with a signed exponent. -/
def floatLayout : Decimal.Shortest.Layout := ⟨-5, 16, ".0", "+"⟩

def hexDigit (n : Nat) : Char :=
  if n < 10 then Char.ofNat (48 + n) else Char.ofNat (87 + n)

/-- A character inside quotes. -/
def escapeChar (c : Char) : List Char :=
  if c = '"' then ['\\', '"']
  else if c = '\\' then ['\\', '\\']
  else if c = '\x08' then ['\\', 'b']
  else if c = '\x0c' then ['\\', 'f']
  else if c = '\n' then ['\\', 'n']
  else if c = '\r' then ['\\', 'r']
  else if c = '\t' then ['\\', 't']
  else if c.toNat < 32 then
    ['\\', 'u', '0', '0', hexDigit (c.toNat / 16), hexDigit (c.toNat % 16)]
  else [c]

def quote (s : String) : List Char := '"' :: s.toList.flatMap escapeChar ++ ['"']

/-- Infinities and NaN have no JSON number and become `null`. -/
def printNumber : Number → List Char
  | .int n => (toString n).toList
  | .real x => match Decimal.Shortest.render floatLayout x with
    | some s => s.toList
    | none => "null".toList

mutual

def printChars : Json → List Char
  | .null => "null".toList
  | .bool true => "true".toList
  | .bool false => "false".toList
  | .num n => printNumber n
  | .str s => quote s
  | .arr [] => ['[', ']']
  | .arr (x :: xs) => '[' :: printChars x ++ printItems xs
  | .obj [] => ['{', '}']
  | .obj ((k, x) :: xs) => '{' :: quote k ++ ':' :: printChars x ++ printFields xs

def printItems : List Json → List Char
  | [] => [']']
  | x :: xs => ',' :: printChars x ++ printItems xs

def printFields : List (String × Json) → List Char
  | [] => ['}']
  | (k, x) :: xs => ',' :: quote k ++ ':' :: printChars x ++ printFields xs

end

/-- The compact text of a value. -/
def print (j : Json) : String := String.ofList (printChars j)

/-- The text that stands for a value where it is inserted into other text: a
string as it is, any other value as JSON. -/
def bound : Json → String
  | .str s => s
  | j => print j

end Relay.Json
