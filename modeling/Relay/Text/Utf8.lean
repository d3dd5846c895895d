/-
# UTF-8

A body arrives as bytes. It is read strictly, where the first fault is reported
with its place and length, or leniently, where each faulty stretch becomes one
U+FFFD. Both walk the same steps: `step` takes one character or one faulty
stretch off the front.

Key definitions: `Step`, `step`, `decode`, `decodeLossy`, `Fault`.
-/

namespace Relay.Text.Utf8

abbrev Bytes := List UInt8

/-- The bytes of a text. -/
def encode (s : String) : Bytes := s.toList.flatMap String.utf8EncodeChar

/-- Why bytes are not UTF-8: a faulty stretch of `length` bytes at `index`, or
an end in the middle of a character that starts at `index`. -/
inductive Fault where
  | invalid (length index : Nat)
  | incomplete (index : Nat)
  deriving Repr, DecidableEq

def Fault.message : Fault → String
  | .invalid length index => s!"invalid utf-8 sequence of {length} bytes from index {index}"
  | .incomplete index => s!"incomplete utf-8 byte sequence from index {index}"

/-- What stands at the front of some bytes: a character with the number of bytes
it takes, a faulty stretch with its length, or an unfinished character. -/
inductive Step where
  | char (c : Char) (size : Nat)
  | bad (size : Nat)
  | unfinished
  deriving Repr, DecidableEq

/-- A byte that continues a character. -/
def isContinuation (b : UInt8) : Bool := 0x80 ≤ b && b ≤ 0xBF

/-- The number of bytes that a first byte announces; 0 for a byte that starts
nothing. -/
def width (b : UInt8) : Nat :=
  if b < 0x80 then 1
  else if 0xC2 ≤ b && b ≤ 0xDF then 2
  else if 0xE0 ≤ b && b ≤ 0xEF then 3
  else if 0xF0 ≤ b && b ≤ 0xF4 then 4
  else 0

/-- The second bytes that may follow a first byte: overlong forms, surrogates and
values above U+10FFFF are shut out here. -/
def isSecond (first b : UInt8) : Bool :=
  if first = 0xE0 then 0xA0 ≤ b && b ≤ 0xBF
  else if first = 0xED then 0x80 ≤ b && b ≤ 0x9F
  else if first = 0xF0 then 0x90 ≤ b && b ≤ 0xBF
  else if first = 0xF4 then 0x80 ≤ b && b ≤ 0x8F
  else isContinuation b

def low6 (b : UInt8) : Nat := b.toNat % 64

/-- One step: the bytes are the first byte and those after it. -/
def step (first : UInt8) (rest : Bytes) : Step :=
  match width first with
  | 1 => .char (Char.ofNat first.toNat) 1
  | 2 =>
    match rest with
    | [] => .unfinished
    | b :: _ =>
      if isSecond first b then .char (Char.ofNat (first.toNat % 32 * 64 + low6 b)) 2
      else .bad 1
  | 3 =>
    match rest with
    | [] => .unfinished
    | b :: r =>
      if isSecond first b then
        match r with
        | [] => .unfinished
        | c :: _ =>
          if isContinuation c then
            .char (Char.ofNat (first.toNat % 16 * 4096 + low6 b * 64 + low6 c)) 3
          else .bad 2
      else .bad 1
  | 4 =>
    match rest with
    | [] => .unfinished
    | b :: r =>
      if isSecond first b then
        match r with
        | [] => .unfinished
        | c :: r' =>
          if isContinuation c then
            match r' with
            | [] => .unfinished
            | d :: _ =>
              if isContinuation d then
                .char (Char.ofNat
                  (first.toNat % 8 * 262144 + low6 b * 4096 + low6 c * 64 + low6 d)) 4
              else .bad 3
          else .bad 2
      else .bad 1
  | _ => .bad 1

/-- Strict reading from a given index on. -/
def decodeFrom (index : Nat) : Bytes → Except Fault (List Char)
  | [] => .ok []
  | first :: rest =>
    match step first rest with
    | .char c size => do
      let cs ← decodeFrom (index + size) (rest.drop (size - 1))
      pure (c :: cs)
    | .bad size => .error (.invalid size index)
    | .unfinished => .error (.incomplete index)
termination_by bytes => bytes.length

/-- The text of the bytes, or their first fault. -/
def decode (bytes : Bytes) : Except Fault String := (decodeFrom 0 bytes).map String.ofList

/-- Stands for what cannot be read. -/
def replacement : Char := '\uFFFD'

def decodeLossyChars : Bytes → List Char
  | [] => []
  | first :: rest =>
    match step first rest with
    | .char c size => c :: decodeLossyChars (rest.drop (size - 1))
    | .bad size => replacement :: decodeLossyChars (rest.drop (size - 1))
    | .unfinished => [replacement]
termination_by bytes => bytes.length

/-- The text of the bytes, each faulty stretch replaced by U+FFFD. -/
def decodeLossy (bytes : Bytes) : String := String.ofList (decodeLossyChars bytes)

end Relay.Text.Utf8
