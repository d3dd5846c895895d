/-
# Reading JSON text

A strict reader: blanks are space, tab, line feed and carriage return; nothing
but blanks may follow the value; strings hold no raw character below U+0020; a
number has no leading zero and no bare point. At most 127 arrays and objects may
be nested in each other.

Key definitions: `Read.document?`, `Json.parse?`.
-/
import Relay.Json.Draft
import Relay.Decimal.Read

namespace Relay.Json.Read

open Decimal

def isBlank (c : Char) : Bool := c = ' ' || c = '\t' || c = '\n' || c = '\r'

def skip (cs : List Char) : List Char := cs.dropWhile isBlank

/-- The value of one hexadecimal digit. -/
def hexValue? (c : Char) : Option Nat :=
  if '0' ≤ c && c ≤ '9' then some (c.toNat - 48)
  else if 'a' ≤ c && c ≤ 'f' then some (c.toNat - 87)
  else if 'A' ≤ c && c ≤ 'F' then some (c.toNat - 55)
  else none

/-- The unit that the four digits behind a `\u` stand for. -/
def hex4? (a b c d : Char) : Option Nat := do
  let a ← hexValue? a
  let b ← hexValue? b
  let c ← hexValue? c
  let d ← hexValue? d
  pure (a * 4096 + b * 256 + c * 16 + d)

/-- The character of a one-letter escape. -/
def simpleEscape? (c : Char) : Option Char :=
  if c = '"' then some '"'
  else if c = '\\' then some '\\'
  else if c = '/' then some '/'
  else if c = 'b' then some '\x08'
  else if c = 'f' then some '\x0c'
  else if c = 'n' then some '\n'
  else if c = 'r' then some '\r'
  else if c = 't' then some '\t'
  else none

/-- One unit of a string: a character or half a surrogate pair. -/
inductive Glyph where
  | char (c : Char)
  | high (unit : Nat)
  | low (unit : Nat)

def Glyph.ofUnit (u : Nat) : Glyph :=
  if 0xD800 ≤ u && u ≤ 0xDBFF then .high u
  else if 0xDC00 ≤ u && u ≤ 0xDFFF then .low u
  else .char (Char.ofNat u)

/-- The units up to the closing quote, and what follows it. -/
def glyphs? : List Char → Option (List Glyph × List Char)
  | [] => none
  | '"' :: rest => some ([], rest)
  | '\\' :: 'u' :: a :: b :: c :: d :: rest => do
    let u ← hex4? a b c d
    let (gs, rest) ← glyphs? rest
    pure (.ofUnit u :: gs, rest)
  | '\\' :: e :: rest => do
    let c ← simpleEscape? e
    let (gs, rest) ← glyphs? rest
    pure (.char c :: gs, rest)
  | c :: rest =>
    if c = '\\' || c.toNat < 32 then none
    else do
      let (gs, rest) ← glyphs? rest
      pure (.char c :: gs, rest)

/-- Pairs up the halves; one that stands alone has no text. -/
def textOf? : List Glyph → Option (List Char)
  | [] => some []
  | .char c :: gs => (textOf? gs).map (c :: ·)
  | .high u :: .low v :: gs =>
    (textOf? gs).map (Char.ofNat (0x10000 + (u - 0xD800) * 1024 + (v - 0xDC00)) :: ·)
  | .high _ :: _ => none
  | .low _ :: _ => none

/-- What a string holds; none inside where it cannot be read. -/
def string? (cs : List Char) : Option (Option String × List Char) := do
  let (gs, rest) ← glyphs? cs
  pure ((textOf? gs).map String.ofList, rest)

/-- A number as written. -/
structure Numeral where
  negative : Bool
  whole : List Char
  fraction : Option (List Char)
  exponent : Option (Bool × List Char)

def digits1? (cs : List Char) : Option (List Char × List Char) :=
  match cs.takeWhile isDigit with
  | [] => none
  | ds => some (ds, cs.dropWhile isDigit)

/-- Whether there is a minus sign in front, and what is behind it. -/
def sign : List Char → Bool × List Char
  | '-' :: r => (true, r)
  | cs => (false, cs)

/-- A point and the digits behind it, if there is a point. -/
def fraction? : List Char → Option (Option (List Char) × List Char)
  | '.' :: r => (digits1? r).map fun (ds, r) => (some ds, r)
  | cs => some (none, cs)

/-- The same as `sign`, for an exponent: a plus sign may stand there as well. -/
def exponentSign : List Char → Bool × List Char
  | '+' :: r => (false, r)
  | cs => sign cs

/-- An exponent, if its letter is there. -/
def exponent? : List Char → Option (Option (Bool × List Char) × List Char)
  | [] => some (none, [])
  | e :: r =>
    if e = 'e' || e = 'E' then
      (digits1? (exponentSign r).2).map fun (ds, cs) => (some ((exponentSign r).1, ds), cs)
    else some (none, e :: r)

def numeral? (cs : List Char) : Option (Numeral × List Char) := do
  let (whole, r) ← digits1? (sign cs).2
  if whole.length > 1 && whole.head? == some '0' then none
  else
    let (fraction, r) ← fraction? r
    let (exponent, r) ← exponent? r
    pure (⟨(sign cs).1, whole, fraction, exponent⟩, r)

/-- Exponents are cut off here, far beyond any double. -/
def exponentBound : Nat := 2147483647

/-- The number of a numeral. Without point and exponent it stays whole where a
64-bit word holds it, except that `-0` is a double; none is beyond the doubles. -/
def Numeral.value? (n : Numeral) : Option Number :=
  let real (s : Significand) (shift : Int) : Option Number :=
    (stepwise s.value (s.exponent + shift)).map fun x =>
      .real (if n.negative then x.negate else x)
  match n.fraction, n.exponent with
  | none, none =>
    let value := natOfDigits n.whole
    if !n.negative && value < Nat.pow 2 64 then some (.int value)
    else if n.negative && value ≠ 0 && value ≤ Nat.pow 2 63 then some (.int (-value))
    else real (wholeDigits 0 n.whole) 0
  | fraction, exponent =>
    let s := fractionDigits (wholeDigits 0 n.whole) (fraction.getD [])
    match exponent with
    | none => real s 0
    | some (down, ds) =>
      let e := natOfDigits ds
      if exponentBound < e then
        if s.value ≠ 0 && !down then none
        else real ⟨0, 0⟩ 0
      else real s (if down then -(e : Int) else e)

/-- Literal text at the front. -/
def literal? (word : List Char) (cs : List Char) : Option (List Char) :=
  if word.isPrefixOf cs then some (cs.drop word.length) else none

mutual

/-- A value with `room` for so many nested arrays and objects. -/
def value? : Nat → Nat → List Char → Option (Draft × List Char)
  | 0, _, _ => none
  | fuel + 1, room, cs =>
    match skip cs with
    | [] => none
    | c :: r =>
      if c = 'n' then (literal? "ull".toList r).map (.null, ·)
      else if c = 't' then (literal? "rue".toList r).map (.bool true, ·)
      else if c = 'f' then (literal? "alse".toList r).map (.bool false, ·)
      else if c = '"' then do
        let (s, r) ← string? r
        pure (s.elim .unreadable .str, r)
      else if c = '[' then do
        let (items, r) ← match skip r with
          | ']' :: r => pure ([], r)
          | _ => items? fuel (room - 1) r
        pure (if room = 0 then .unreadable else .arr items, r)
      else if c = '{' then do
        let (fields, r) ← match skip r with
          | '}' :: r => pure (some [], r)
          | _ => fields? fuel (room - 1) r
        pure (if room = 0 then .unreadable else fields.elim .unreadable .obj, r)
      else do
        let (n, r) ← numeral? (c :: r)
        pure (n.value?.elim .unreadable .num, r)

/-- One or more values up to the closing bracket. -/
def items? : Nat → Nat → List Char → Option (List Draft × List Char)
  | 0, _, _ => none
  | fuel + 1, room, cs => do
    let (d, r) ← value? fuel room cs
    match skip r with
    | c :: r =>
      if c = ']' then pure ([d], r)
      else if c = ',' then do
        let (ds, r) ← items? fuel room r
        pure (d :: ds, r)
      else none
    | [] => none

/-- One or more entries up to the closing brace; none inside where a name cannot
be read. -/
def fields? : Nat → Nat → List Char → Option (Option (List (String × Draft)) × List Char)
  | 0, _, _ => none
  | fuel + 1, room, cs =>
    match skip cs with
    | '"' :: r => do
      let (name, r) ← string? r
      match skip r with
      | ':' :: r => do
        let (d, r) ← value? fuel room r
        match skip r with
        | c :: r =>
          if c = '}' then pure (name.map fun k => [(k, d)], r)
          else if c = ',' then do
            let (rest, r) ← fields? fuel room r
            pure ((name.bind fun k => rest.map ((k, d) :: ·)), r)
          else none
        | [] => none
      | _ => none
    | _ => none

end

/-- So many arrays and objects may be nested. -/
def maxDepth : Nat := 127

/-- The document that a text holds. -/
def document? (text : String) : Option Draft := do
  let cs := text.toList
  let (d, rest) ← value? (2 * cs.length + 2) maxDepth cs
  if (skip rest).isEmpty then some d else none

end Read

/-- The value that a text holds. -/
def parse? (text : String) : Option Json := (Read.document? text).bind Draft.value?

end Relay.Json
