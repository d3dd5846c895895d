/-
# Reading configuration text

A text is a sequence of lines: a key with its value, a header, or nothing, each
with an optional comment. The reader is strict: numbers have no leading zeros,
moments name real dates, strings hold no raw controls, and a key given twice is
a fault of the whole text.

Key definitions: `Read.document?`, `Toml.parse?`.
-/
import Relay.Decimal.Float
import Relay.Json.Read
import Relay.Text.Split
import Relay.Time.Instant
import Relay.Toml.Basic

namespace Relay.Toml.Read

open Decimal

def isBlank (c : Char) : Bool := c = ' ' || c = '\t'

def skip (cs : List Char) : List Char := cs.dropWhile isBlank

/-- Characters that may stand in comments and literal strings. -/
def isPlain (c : Char) : Bool := c = '\t' || (0x20 ≤ c.toNat && c.toNat ≠ 0x7F)

def comment (cs : List Char) : List Char :=
  match cs with
  | '#' :: r => r.dropWhile isPlain
  | _ => cs

/-- A line break, if one is next. -/
def lineBreak? : List Char → Option (List Char)
  | '\n' :: r => some r
  | '\r' :: '\n' :: r => some r
  | _ => none

/-- The end of a line behind its content. -/
def endLine? (cs : List Char) : Option (List Char) :=
  match comment (skip cs) with
  | [] => some []
  | cs => lineBreak? cs

/-- Blanks, comments and line breaks between the items of a list. -/
def skipLines : Nat → List Char → List Char
  | 0, cs => cs
  | fuel + 1, cs =>
    let cs := comment (skip cs)
    match lineBreak? cs with
    | some r => skipLines fuel r
    | none => cs

/-! ### Strings and keys -/

/-- The character that so many hexadecimal digits name, and the rest. -/
def scalar? (width : Nat) (cs : List Char) : Option (Char × List Char) := do
  let digits ← (cs.take width).mapM Json.Read.hexValue?
  if digits.length < width then failure
  let n := digits.foldl (fun n d => n * 16 + d) 0
  if n < 0xD800 || (0xDFFF < n && n < 0x110000) then some (Char.ofNat n, cs.drop width) else none

/-- The character behind a backslash. -/
def escape? : List Char → Option (Char × List Char)
  | [] => none
  | e :: r =>
    if e = '"' then some ('"', r)
    else if e = '\\' then some ('\\', r)
    else if e = 'b' then some ('\x08', r)
    else if e = 'f' then some ('\x0c', r)
    else if e = 'n' then some ('\n', r)
    else if e = 'r' then some ('\r', r)
    else if e = 't' then some ('\t', r)
    else if e = 'u' then scalar? 4 r
    else if e = 'U' then scalar? 8 r
    else none

/-- A string up to its closing quote. -/
def basic? : Nat → List Char → Option (List Char × List Char)
  | 0, _ => none
  | fuel + 1, cs =>
    match cs with
    | '"' :: r => some ([], r)
    | '\\' :: r => do
      let (c, r) ← escape? r
      let (s, r) ← basic? fuel r
      pure (c :: s, r)
    | c :: r =>
      if isPlain c then do
        let (s, r) ← basic? fuel r
        pure (c :: s, r)
      else none
    | [] => none

/-- A string without escapes up to its closing apostrophe. -/
def literal? (cs : List Char) : Option (List Char × List Char) :=
  match cs.dropWhile fun c => isPlain c && c != '\'' with
  | '\'' :: r => some (cs.takeWhile (fun c => isPlain c && c != '\''), r)
  | _ => none

/-- A run of three to five quotes closes a long string, those beyond three belong
to it; fewer are part of it. -/
def closing? (mark : Char) (cs : List Char) : Option (List Char × List Char) :=
  let run := min (cs.takeWhile (· = mark)).length 5
  if 3 ≤ run then some (List.replicate (run - 3) mark, cs.drop run) else none

/-- Blanks and line breaks behind a backslash at the end of a line. -/
def continuation? (cs : List Char) : Option (List Char) := do
  let r ← lineBreak? (skip cs)
  pure (r.dropWhile fun c => isBlank c || c = '\n' || c = '\r')

/-- A string over several lines, with escapes or without, up to its closing quotes. -/
def long? (mark : Char) (escapes : Bool) : Nat → List Char → Option (List Char × List Char)
  | 0, _ => none
  | fuel + 1, cs =>
    match closing? mark cs with
    | some found => some found
    | none =>
      match lineBreak? cs with
      | some r => do
        let (s, r) ← long? mark escapes fuel r
        pure ('\n' :: s, r)
      | none =>
        match cs with
        | [] => none
        | c :: r =>
          if escapes && c = '\\' then
            match continuation? r with
            | some r => long? mark escapes fuel r
            | none => do
              let (e, r) ← escape? r
              let (s, r) ← long? mark escapes fuel r
              pure (e :: s, r)
          else if isPlain c then do
            let (s, r) ← long? mark escapes fuel r
            pure (c :: s, r)
          else none

/-- A line break right behind the opening quotes is not part of the string. -/
def dropFirstBreak (cs : List Char) : List Char := (lineBreak? cs).getD cs

def string? (cs : List Char) : Option (String × List Char) :=
  let found := match cs with
    | '"' :: '"' :: '"' :: r => long? '"' true (r.length + 1) (dropFirstBreak r)
    | '"' :: r => basic? (r.length + 1) r
    | '\'' :: '\'' :: '\'' :: r => long? '\'' false (r.length + 1) (dropFirstBreak r)
    | '\'' :: r => literal? r
    | _ => none
  found.map fun (s, r) => (String.ofList s, r)

def isBare (c : Char) : Bool :=
  isDigit c || ('a' ≤ c && c ≤ 'z') || ('A' ≤ c && c ≤ 'Z') || c = '-' || c = '_'

/-- One name of a key. -/
def name? (cs : List Char) : Option (String × List Char) :=
  match skip cs with
  | '"' :: r => (basic? (r.length + 1) r).map fun (s, r) => (String.ofList s, r)
  | '\'' :: r => (literal? r).map fun (s, r) => (String.ofList s, r)
  | cs =>
    let name := cs.takeWhile isBare
    if name.isEmpty then none else some (String.ofList name, cs.drop name.length)

/-- The names of a key: the path to it and its own. -/
def key? : Nat → List Char → Option (List String × String × List Char)
  | 0, _ => none
  | fuel + 1, cs => do
    let (name, r) ← name? cs
    match skip r with
    | '.' :: r => do
      let (path, last, r) ← key? fuel r
      pure (name :: path, last, r)
    | r => pure ([], name, r)

/-- So deep may values be nested and keys be dotted. -/
def maxDepth : Nat := 79

/-! ### Numbers and moments -/

/-- Digits with single underscores between them. -/
def grouped? (isDigit : Char → Bool) (cs : List Char) : Option (List Char × List Char) :=
  let run := cs.takeWhile fun c => isDigit c || c = '_'
  let pieces := Text.pieces '_' run
  if pieces.any List.isEmpty then none else some (pieces.flatten, cs.drop run.length)

/-- A whole number of 64 bits. -/
def word? (n : Int) : Option Item :=
  if -(Int.pow 2 63) ≤ n ∧ n < Int.pow 2 63 then some (.int n) else none

/-- A number in base 2, 8 or 16 behind its mark. -/
def based? (base : Nat) (cs : List Char) : Option (Item × List Char) := do
  let inBase (c : Char) : Bool := match Json.Read.hexValue? c with
    | some d => decide (d < base)
    | none => false
  let (ds, r) ← grouped? inBase cs
  let n := ds.foldl (fun n d => n * base + (Json.Read.hexValue? d).getD 0) 0
  pure (← word? n, r)

/-- The fraction of a number, the point included. -/
def fraction? (cs : List Char) : Option (List Char × List Char) :=
  match cs with
  | '.' :: r => (grouped? isDigit r).map fun (ds, r) => ('.' :: ds, r)
  | _ => some ([], cs)

/-- The exponent of a number, its letter included. -/
def exponent? (cs : List Char) : Option (List Char × List Char) :=
  match cs with
  | e :: r =>
    if e = 'e' || e = 'E' then
      let (sign, r) := match r with
        | '+' :: r => (['+'], r)
        | '-' :: r => (['-'], r)
        | _ => ([], r)
      (grouped? isDigit r).map fun (ds, r) => ('e' :: sign ++ ds, r)
    else some ([], cs)
  | [] => some ([], cs)

/-- A number in base ten, whole or not, behind its sign; no number is beyond the
doubles. -/
def decimal? (negative : Bool) (cs : List Char) : Option (Item × List Char) := do
  let (whole, r) ← grouped? isDigit cs
  if whole.length > 1 && whole.head? == some '0' then failure
  let (fraction, r) ← fraction? r
  let (exponent, r) ← exponent? r
  if fraction.isEmpty && exponent.isEmpty then
    let n : Int := natOfDigits whole
    pure (← word? (if negative then -n else n), r)
  else
    let written := String.ofList ((if negative then ['-'] else []) ++ whole ++ fraction ++ exponent)
    let x ← float? written
    if x.isFinite then pure (.real written, r) else none

/-- Exactly so many digits. -/
def digits? (width : Nat) (cs : List Char) : Option (Nat × List Char) :=
  let ds := cs.take width
  if ds.length = width && ds.all isDigit then some (natOfDigits ds, cs.drop width) else none

def mark? (c : Char) : List Char → Option (List Char)
  | d :: r => if c = d then some r else none
  | [] => none

/-- Year, month and day; what follows them. -/
def date? (cs : List Char) : Option (List Char) := do
  let (year, r) ← digits? 4 cs
  let (month, r) ← digits? 2 (← mark? '-' r)
  let (day, r) ← digits? 2 (← mark? '-' r)
  if month < 1 || 12 < month || day < 1 || Calendar.daysIn year month < day then none else some r

/-- Hour, minute and second with a fraction; what follows them. -/
def time? (cs : List Char) : Option (List Char) := do
  let (hour, r) ← digits? 2 cs
  let (minute, r) ← digits? 2 (← mark? ':' r)
  let (second, r) ← digits? 2 (← mark? ':' r)
  if 23 < hour || 59 < minute || 60 < second then failure
  match r with
  | '.' :: f => if (f.takeWhile isDigit).isEmpty then none else some (f.dropWhile isDigit)
  | _ => some r

/-- An offset from UTC, if one is next; what follows it. -/
def offset? (cs : List Char) : Option (List Char) :=
  let signed (r : List Char) : Option (List Char) := do
    let (hour, r) ← digits? 2 r
    let (minute, r) ← digits? 2 (← mark? ':' r)
    if 23 < hour || 59 < minute then none else some r
  match cs with
  | 'Z' :: r | 'z' :: r => some r
  | '+' :: r | '-' :: r => signed r
  | _ => some cs

/-- A date with or without a time, or a time alone; what follows it. -/
def moment? (cs : List Char) : Option (List Char) :=
  match (digits? 4 cs).bind fun (_, r) => mark? '-' r with
  | some _ => do
    let r ← date? cs
    match r with
    | c :: t =>
      if c = 'T' || c = 't' then offset? (← time? t)
      else if c = ' ' && (digits? 2 t).isSome then offset? (← time? t)
      else some r
    | [] => some r
  | none => time? cs

/-- A number or a moment. -/
def number? (cs : List Char) : Option (Item × List Char) :=
  let special (r : List Char) : Option (Item × List Char) :=
    match r with
    | 'i' :: 'n' :: 'f' :: r => some (.real "inf", r)
    | 'n' :: 'a' :: 'n' :: r => some (.real "nan", r)
    | _ => none
  match cs with
  | '+' :: r => (special r).orElse fun _ => decimal? false r
  | '-' :: r => (special r).orElse fun _ => decimal? true r
  | '0' :: 'x' :: r => based? 16 r
  | '0' :: 'o' :: r => based? 8 r
  | '0' :: 'b' :: r => based? 2 r
  | _ =>
    match moment? cs with
    | some r => some (.moment (String.ofList (cs.take (cs.length - r.length))), r)
    | none => (special cs).orElse fun _ => decimal? false cs

/-! ### Values -/

mutual

/-- A value that nests at most `room` deep. -/
def value? : Nat → Nat → List Char → Option (Item × List Char)
  | 0, _, _ => none
  | fuel + 1, room, cs =>
    match cs with
    | [] => none
    | c :: r =>
      if c = '"' || c = '\'' then (string? cs).map fun (s, r) => (.text s, r)
      else if c = '[' then
        if room = 0 then none
        else (items? fuel (room - 1) r).map fun (items, r) => (.list items, r)
      else if c = '{' then
        if room = 0 then none
        else match skip r with
          | '}' :: r => some (.closed [], r)
          | _ => (entries? fuel (room - 1) [] r).map fun (entries, r) => (.closed entries, r)
      else if c = 't' then (Json.Read.literal? "rue".toList r).map (.flag true, ·)
      else if c = 'f' then (Json.Read.literal? "alse".toList r).map (.flag false, ·)
      else number? cs

/-- Items up to the closing bracket; a comma may end them. -/
def items? : Nat → Nat → List Char → Option (List Item × List Char)
  | 0, _, _ => none
  | fuel + 1, room, cs =>
    match skipLines cs.length cs with
    | ']' :: r => some ([], r)
    | cs => do
      let (item, r) ← value? fuel room cs
      match skipLines r.length r with
      | ',' :: r => do
        let (items, r) ← items? fuel room r
        pure (item :: items, r)
      | ']' :: r => pure ([item], r)
      | _ => none

/-- Entries up to the closing brace, all on one line. -/
def entries? : Nat → Nat → Entries → List Char → Option (Entries × List Char)
  | 0, _, _, _ => none
  | fuel + 1, room, entries, cs => do
    let (path, name, r) ← key? maxDepth cs
    let (item, r) ← value? fuel room (skip (← mark? '=' r))
    let entries ← put? path name item (.header, entries)
    match skip r with
    | ',' :: r => entries? fuel room entries r
    | '}' :: r => pure (entries, r)
    | _ => none

end

/-! ### Lines -/

/-- What has been read so far: the tree, and the path of the header that is open. -/
structure Reading where
  root : Entries := []
  header : List String := []

/-- Enters a key with its value under the open header. -/
def Reading.enter? (s : Reading) (path : List String) (name : String) (item : Item) :
    Option Reading := do
  let root ← change? .implied (put? path name item) s.header (.header, s.root)
  pure { s with root }

/-- One line that is not empty; what follows its content. -/
def line? (s : Reading) (cs : List Char) : Option (Reading × List Char) :=
  match cs with
  | '[' :: '[' :: r => do
    let (path, name, r) ← key? maxDepth r
    let r ← mark? ']' (← mark? ']' r)
    pure ({ root := ← openEntry? path name s.root, header := path ++ [name] }, r)
  | '[' :: r => do
    let (path, name, r) ← key? maxDepth r
    let r ← mark? ']' r
    pure ({ root := ← openTable? path name s.root, header := path ++ [name] }, r)
  | _ => do
    let (path, name, r) ← key? maxDepth cs
    let r := skip (← mark? '=' r)
    let (item, r) ← value? (2 * r.length + 2) maxDepth r
    pure (← s.enter? path name item, r)

def lines? : Nat → Reading → List Char → Option Reading
  | 0, _, _ => none
  | fuel + 1, s, cs =>
    match endLine? cs with
    | some [] => some s
    | some r => lines? fuel s r
    | none => do
      let (s, r) ← line? s (skip cs)
      match ← endLine? r with
      | [] => some s
      | r => lines? fuel s r

/-- The entries of the tree that a text holds; a byte order mark may begin it. -/
def document? (text : String) : Option Entries :=
  let cs := match text.toList with
    | '\uFEFF' :: r => r
    | cs => cs
  (lines? (cs.length + 1) {} cs).map (·.root)

end Read

/-- The entries that a configuration text holds. -/
def parse? (text : String) : Option Entries := Read.document? text

end Relay.Toml
