/-
# Hosts

The host of a URL is a domain, an IPv4 address or an IPv6 address. In special
schemes a text whose last label is a number has to be an IPv4 address; domains
are percent-decoded, put into lower case and written in ASCII, by a part of the
mapping for international names (`mapDomainChar`). In other schemes the text is kept.

Key definitions: `Host`, `Host.special?`, `Host.verbatim?`, `Host.print`, `Fault`.
-/
import Relay.Text.Blank
import Relay.Text.Split
import Relay.Url.Percent
import Relay.Url.Punycode

namespace Relay.Url

open Relay.Text

/-- Why a text is not a URL. -/
inductive Fault where
  | relative
  | emptyHost
  | port
  | ipv4
  | ipv6
  | international
  | domainCharacter
  deriving DecidableEq, Repr, Inhabited

def Fault.message : Fault → String
  | .relative => "relative URL without a base"
  | .emptyHost => "empty host"
  | .port => "invalid port number"
  | .ipv4 => "invalid IPv4 address"
  | .ipv6 => "invalid IPv6 address"
  | .international => "invalid international domain name"
  | .domainCharacter => "invalid domain character"

inductive Host where
  | domain (name : String)
  | ipv4 (address : Nat)
  | ipv6 (groups : List Nat)
  deriving DecidableEq, Repr, Inhabited

namespace Host

/-! ### IPv4 -/

def isDigit (c : Char) : Bool := '0' ≤ c && c ≤ '9'

def hexValue? (c : Char) : Option Nat :=
  if isDigit c then some (c.toNat - 48)
  else if 'a' ≤ c && c ≤ 'f' then some (c.toNat - 87)
  else if 'A' ≤ c && c ≤ 'F' then some (c.toNat - 55)
  else none

/-- The number that digits of a base stand for. -/
def inBase? (base : Nat) (cs : List Char) : Option Nat :=
  cs.foldlM (fun n c => do
    let d ← hexValue? c
    if d < base then some (base * n + d) else none) 0

/-- A number with `0x` in base 16, with a leading zero in base 8, or in base 10. -/
def number? : List Char → Option Nat
  | [] => none
  | '0' :: 'x' :: cs | '0' :: 'X' :: cs => inBase? 16 cs
  | '0' :: c :: cs => inBase? 8 (c :: cs)
  | cs => inBase? 10 cs

/-- The last label that is not empty at the very end is a number. -/
def endsInNumber (cs : List Char) : Bool :=
  let labels := (Text.pieces '.' cs).reverse
  let last? := match labels with
    | [] :: rest => rest.head?
    | labels => labels.head?
  match last? with
  | none => false
  | some last => (!last.isEmpty && last.all isDigit) || (number? last).isSome

/-- Up to four numbers; the last fills what the others leave. -/
def ipv4? (cs : List Char) : Except Fault Host := do
  let labels := Text.pieces '.' cs
  let labels := if labels.getLast? == some [] then labels.dropLast else labels
  if 4 < labels.length then throw .ipv4
  let some numbers := labels.mapM number? | throw .ipv4
  match numbers.reverse with
  | [] => throw .ipv4
  | last :: others =>
    if others.any (255 < ·) || Nat.pow 256 (5 - numbers.length) ≤ last then throw .ipv4
    else
      let high := others.reverse.foldl (fun n d => n * 256 + d) 0
      pure (.ipv4 (high * Nat.pow 256 (4 - others.length) + last))

/-! ### IPv6 -/

/-- A part of an IPv4 address: one to three digits, no leading zero, at most 255. -/
def octet? (cs : List Char) : Option Nat :=
  match cs with
  | [] => none
  | c :: rest =>
    if !cs.all isDigit || (c = '0' && !rest.isEmpty) || 3 < cs.length then none
    else (inBase? 10 cs).bind fun n => if n ≤ 255 then some n else none

/-- One group of up to four hexadecimal digits. -/
def group? (cs : List Char) : Option Nat :=
  if cs.isEmpty || 4 < cs.length then none else inBase? 16 cs

/-- Groups between colons, where the last may be an IPv4 address. -/
def groups? (parts : List (List Char)) : Option (List Nat) :=
  match parts with
  | [] => some []
  | [last] =>
    if last.contains '.' then do
      match ← (Text.pieces '.' last).mapM octet? with
      | [a, b, c, d] => pure [a * 256 + b, c * 256 + d]
      | _ => none
    else (group? last).map ([·])
  | p :: rest => do
    let g ← group? p
    let gs ← groups? rest
    pure (g :: gs)

/-- What stands before and behind the first `::`. -/
def cutDouble : List Char → Option (List Char × List Char)
  | ':' :: ':' :: rest => some ([], rest)
  | c :: rest => (cutDouble rest).map fun (a, b) => (c :: a, b)
  | [] => none

/-- The groups of a text without `::`; the empty text has none. -/
def run? (cs : List Char) : Option (List Nat) :=
  if cs.isEmpty then some [] else groups? (Text.pieces ':' cs)

/-- Eight groups, of which one `::` may stand for a run of zeros. -/
def ipv6? (cs : List Char) : Except Fault Host :=
  match cutDouble cs with
  | none =>
    match run? cs with
    | some gs => if gs.length = 8 then .ok (.ipv6 gs) else .error .ipv6
    | none => .error .ipv6
  | some (before, behind) =>
    match run? before, run? behind with
    | some gs, some hs =>
      if before.contains '.' || 7 < gs.length + hs.length then .error .ipv6
      else .ok (.ipv6 (gs ++ List.replicate (8 - gs.length - hs.length) 0 ++ hs))
    | _, _ => .error .ipv6

/-! ### Domains -/

/-- Characters that no domain holds. -/
def isForbiddenDomain (c : Char) : Bool :=
  c.toNat ≤ 0x20 || c.toNat = 0x7F
    || ['%', '#', '/', ':', '<', '>', '?', '@', '[', '\\', ']', '^', '|'].contains c

/-- Characters that no host of another scheme holds. -/
def isForbiddenHost (c : Char) : Bool :=
  ['\x00', '\t', '\n', '\r', ' ', '#', '/', ':', '<', '>', '?', '@', '[', '\\', ']', '^',
    '|'].contains c

/-- Domains ignore case and the width of letters: what a character becomes before
the labels are written. Of the UTS 46 table this has ASCII, the Latin, Greek and
Cyrillic capitals below U+0430, the full-width forms, the dots and what is left out;
every other character stays as it is, where the table also takes apart ligatures and
superscripts, composes marks and refuses characters. -/
def mapDomainChar (c : Char) : List Char :=
  let n := c.toNat
  if n < 0x80 then [lowerChar c]
  else if n = 0xAD || n = 0x200B || n = 0x2060 || n = 0xFEFF then []
  else if n = 0x3002 || n = 0xFF0E || n = 0xFF61 then ['.']
  else if 0xC0 ≤ n && n ≤ 0xDE && n ≠ 0xD7 then [Char.ofNat (n + 32)]
  else if 0x100 ≤ n && n ≤ 0x137 && n ≠ 0x130 && n ≠ 0x131 then [Char.ofNat (n + (n + 1) % 2)]
  else if 0x391 ≤ n && n ≤ 0x3A9 && n ≠ 0x3A2 then [Char.ofNat (n + 32)]
  else if 0x410 ≤ n && n ≤ 0x42F then [Char.ofNat (n + 32)]
  else if 0x400 ≤ n && n ≤ 0x40F then [Char.ofNat (n + 80)]
  else if 0xFF01 ≤ n && n ≤ 0xFF5E then [lowerChar (Char.ofNat (n - 0xFEE0))]
  else [c]

/-- A label that an ASCII form may stand for: beyond ASCII, in the form that all
others are mapped to, and without controls. -/
def isDecodedLabel (label : List Char) : Bool :=
  label.any (fun c => 128 ≤ c.toNat) && label.flatMap mapDomainChar == label
    && !label.any fun c => 0x80 ≤ c.toNat && c.toNat ≤ 0x9F

/-- A label in ASCII. -/
def asciiLabel? (label : List Char) : Option (List Char) :=
  if label.all fun c => c.toNat < 128 then
    if startsWith "xn--".toList label then
      match Punycode.decode? (label.drop 4) with
      | some decoded => if isDecodedLabel decoded then some label else none
      | none => none
    else some label
  else some ("xn--".toList ++ Punycode.encode label)

/-- A domain in ASCII. -/
def domain? (cs : List Char) : Except Fault (List Char) := do
  let text ← match Utf8.decode (Percent.decode cs) with
    | .ok s => pure s.toList
    | .error _ => throw .international
  let mapped := text.flatMap mapDomainChar
  let some labels := (Text.pieces '.' mapped).mapM asciiLabel? | throw .international
  let ascii := Text.join ['.'] labels
  if ascii.any isForbiddenDomain then throw .international
  pure ascii

/-- The text between square brackets, if it stands in them. -/
def bracketed (cs : List Char) : Option (Except Fault (List Char)) :=
  match cs with
  | '[' :: rest =>
    match rest.reverse with
    | ']' :: inner => some (.ok inner.reverse)
    | _ => some (.error .ipv6)
  | _ => none

/-- A host of a special scheme. -/
def special? (cs : List Char) : Except Fault Host :=
  match bracketed cs with
  | some inner => inner.bind ipv6?
  | none => do
    let ascii ← domain? cs
    if ascii.isEmpty then throw .emptyHost
    if endsInNumber ascii then ipv4? ascii else pure (.domain (String.ofList ascii))

/-- A host of another scheme. -/
def verbatim? (cs : List Char) : Except Fault Host :=
  match bracketed cs with
  | some inner => inner.bind ipv6?
  | none =>
    if cs.any isForbiddenHost then .error .domainCharacter
    else .ok (.domain (String.ofList (Percent.encode Percent.controls cs)))

/-! ### Printing -/

def printHex (n : Nat) : List Char := Nat.toDigits 16 n

/-- The length of the run of zeros at the front. -/
def zeroRun : List Nat → Nat
  | 0 :: rest => zeroRun rest + 1
  | _ => 0

/-- Start and length of the longest run of at least two zeros, the first of
equally long ones. -/
def longestRun (groups : List Nat) : Option (Nat × Nat) :=
  let runs := (List.range groups.length).map fun i => (i, zeroRun (groups.drop i))
  runs.foldl (fun best run =>
    if 2 ≤ run.2 && (match best with | none => true | some b => b.2 < run.2) then some run
    else best) none

def printGroups (groups : List Nat) : List Char :=
  let colons (gs : List Nat) := Text.join [':'] (gs.map printHex)
  match longestRun groups with
  | none => colons groups
  | some (start, length) =>
    colons (groups.take start) ++ [':', ':'] ++ colons (groups.drop (start + length))

def print : Host → List Char
  | .domain name => name.toList
  | .ipv4 n =>
    Text.join ['.'] ([n / 16777216, n / 65536 % 256, n / 256 % 256, n % 256].map
      (Nat.toDigits 10))
  | .ipv6 groups => '[' :: printGroups groups ++ [']']

end Host

end Relay.Url
