/-
# Percent-encoding

A character of an encode set, and every character outside ASCII, is written as
the bytes of its UTF-8 form, each `%` and two upper-case hexadecimal digits. Each
part of a URL has its own set. What is already encoded is not encoded again,
because `%` belongs to no set.

Key definitions: `EncodeSet`, `encodeChar`, `encode`, `decodeBytes`, `formEncode`,
`formDecode`.
-/
import Relay.Text.Utf8

namespace Relay.Url.Percent

open Relay.Text

/-- The ASCII characters that are encoded; controls, DEL and all beyond ASCII
always are. -/
abbrev EncodeSet := Char → Bool

def isControl (c : Char) : Bool := c.toNat < 0x20 || 0x7F ≤ c.toNat

def controls : EncodeSet := isControl

/-- The controls and the characters of a list. -/
def controlsAnd (cs : List Char) : EncodeSet := fun c => isControl c || cs.contains c

def fragmentSet : EncodeSet := controlsAnd [' ', '"', '<', '>', '\x60']
def querySet : EncodeSet := controlsAnd [' ', '"', '#', '<', '>']
/-- Queries of special schemes also encode the apostrophe. -/
def specialQuerySet : EncodeSet := controlsAnd [' ', '"', '#', '<', '>', '\'']
def pathSet : EncodeSet := controlsAnd [' ', '"', '<', '>', '\x60', '#', '?', '{', '}']
def userSet : EncodeSet :=
  controlsAnd [' ', '"', '<', '>', '\x60', '#', '?', '{', '}', '/', ':', ';', '=', '@', '[', '\\',
    ']', '^', '|']

def hexDigit (n : Nat) : Char :=
  if n < 10 then Char.ofNat (48 + n) else Char.ofNat (55 + n)

def encodeByte (b : UInt8) : List Char :=
  ['%', hexDigit (b.toNat / 16), hexDigit (b.toNat % 16)]

def encodeChar (set : EncodeSet) (c : Char) : List Char :=
  if set c then (String.utf8EncodeChar c).flatMap encodeByte else [c]

def encode (set : EncodeSet) (cs : List Char) : List Char := cs.flatMap (encodeChar set)

def hexValue? (b : UInt8) : Option Nat :=
  if 48 ≤ b && b ≤ 57 then some (b.toNat - 48)
  else if 65 ≤ b && b ≤ 70 then some (b.toNat - 55)
  else if 97 ≤ b && b ≤ 102 then some (b.toNat - 87)
  else none

/-- Replaces each `%` with two hexadecimal digits by the byte; any other `%` stays. -/
def decodeBytes : Utf8.Bytes → Utf8.Bytes
  | [] => []
  | b :: c :: d :: rest =>
    if b = 37 then
      match hexValue? c, hexValue? d with
      | some h, some l => UInt8.ofNat (h * 16 + l) :: decodeBytes rest
      | _, _ => b :: decodeBytes (c :: d :: rest)
    else b :: decodeBytes (c :: d :: rest)
  | b :: rest => b :: decodeBytes rest

/-- The bytes that a text stands for. -/
def decode (cs : List Char) : Utf8.Bytes := decodeBytes (cs.flatMap String.utf8EncodeChar)

/-! ### Forms -/

/-- Characters that stand for themselves in a form. -/
def isFormSafe (c : Char) : Bool :=
  ('a' ≤ c && c ≤ 'z') || ('A' ≤ c && c ≤ 'Z') || ('0' ≤ c && c ≤ '9')
    || c = '*' || c = '-' || c = '.' || c = '_'

/-- A space becomes `+`, an unsafe character its bytes. -/
def formChar (c : Char) : List Char :=
  if c = ' ' then ['+']
  else if isFormSafe c then [c]
  else (String.utf8EncodeChar c).flatMap encodeByte

def formEncode (cs : List Char) : List Char := cs.flatMap formChar

/-- `name=value` pairs joined by `&`. -/
def formPair (name value : String) : List Char :=
  formEncode name.toList ++ '=' :: formEncode value.toList

/-- The text behind an encoded form component; faulty bytes become U+FFFD. -/
def formDecode (cs : List Char) : String :=
  Utf8.decodeLossy (decode (cs.map fun c => if c = '+' then ' ' else c))

end Relay.Url.Percent
