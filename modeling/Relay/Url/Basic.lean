/-
# URLs

A URL in parts. Reading drops controls and spaces around the text and tabs and
line ends inside it, puts scheme and host into their normal form, resolves dot
segments of the path and percent-encodes each part with its own set. The parts
are cut apart before any of them is looked at, so no part can reach into another.

Key definitions: `Url`, `Url.parse?`, `Url.print`.
-/
import Relay.Url.Host

namespace Relay

open Relay.Text

/-- Who is asked: user, host and port. -/
structure Url.Authority where
  /-- Percent-encoded. -/
  user : String := ""
  password : Option String := none
  /-- No host in some schemes other than http. -/
  host : Option Url.Host
  /-- Left out where it is the scheme's own. -/
  port : Option Nat := none
  deriving DecidableEq, Repr, Inhabited

structure Url where
  scheme : String
  authority : Option Url.Authority
  path : String
  query : Option String := none
  fragment : Option String := none
  deriving DecidableEq, Repr, Inhabited

namespace Url

/-! ### Schemes -/

def isAlpha (c : Char) : Bool := ('a' ≤ c && c ≤ 'z') || ('A' ≤ c && c ≤ 'Z')

def isSchemeChar (c : Char) : Bool :=
  isAlpha c || Host.isDigit c || c = '+' || c = '-' || c = '.'

/-- Schemes whose URLs have a host and where a backslash is a slash. -/
def isSpecial (scheme : String) : Bool :=
  scheme == "http" || scheme == "https" || scheme == "ws" || scheme == "wss" || scheme == "ftp"
    || scheme == "file"

def defaultPort? (scheme : String) : Option Nat :=
  if scheme == "http" || scheme == "ws" then some 80
  else if scheme == "https" || scheme == "wss" then some 443
  else if scheme == "ftp" then some 21
  else none

/-! ### Cutting the text into parts -/

def isTabOrNewline (c : Char) : Bool := c = '\t' || c = '\n' || c = '\r'

def isControlOrSpace (c : Char) : Bool := c ≤ ' '

/-- The text without controls and spaces around it and tabs and line ends in it. -/
def clean (cs : List Char) : List Char :=
  (dropEndWhile isControlOrSpace (cs.dropWhile isControlOrSpace)).filter fun c =>
    !isTabOrNewline c

/-- The scheme in lower case and what follows its colon. -/
def cutScheme? (cs : List Char) : Option (String × List Char) :=
  match cs with
  | [] => none
  | c :: _ =>
    if isAlpha c then
      match cs.dropWhile isSchemeChar with
      | ':' :: rest => some (String.ofList (lowerChars (cs.takeWhile isSchemeChar)), rest)
      | _ => none
    else none

/-- Ends the authority. -/
def isAuthorityEnd (special : Bool) (c : Char) : Bool :=
  c = '/' || c = '?' || c = '#' || (special && c = '\\')

def isSlash (special : Bool) (c : Char) : Bool := c = '/' || (special && c = '\\')

def isPathEnd (c : Char) : Bool := c = '?' || c = '#'

/-- Path, query and fragment of what follows the authority. -/
def cutPath (cs : List Char) : List Char × Option (List Char) × Option (List Char) :=
  let path := cs.takeWhile fun c => !isPathEnd c
  match cs.dropWhile fun c => !isPathEnd c with
  | '?' :: rest =>
    let (query, fragment) := cut '#' rest
    (path, some query, fragment)
  | '#' :: rest => (path, none, some rest)
  | _ => (path, none, none)

/-- User information and host, parted by the last `@`. -/
def cutUser (cs : List Char) : Option (List Char) × List Char :=
  if cs.contains '@' then
    let host := (cs.reverse.takeWhile (· ≠ '@')).reverse
    (some (cs.take (cs.length - host.length - 1)), host)
  else (none, cs)

/-- Host and port, parted by the first colon outside of brackets. -/
def cutPort (inside : Bool) : List Char → List Char × Option (List Char)
  | [] => ([], none)
  | c :: cs =>
    if c = ':' && !inside then ([], some cs)
    else
      let inside := if c = '[' then true else if c = ']' then false else inside
      let (host, port) := cutPort inside cs
      (c :: host, port)

/-! ### The parts -/

/-- Decimal digits up to 65535, or nothing; the scheme's own port is left out. -/
def port? (scheme : String) (cs : List Char) : Except Fault (Option Nat) :=
  if !cs.all Host.isDigit then .error .port
  else
    let n := cs.foldl (fun n c => 10 * n + (c.toNat - 48)) 0
    if 65535 < n then .error .port
    else if cs.isEmpty || defaultPort? scheme == some n then .ok none
    else .ok (some n)

def encodeUser (cs : List Char) : String := String.ofList (Percent.encode Percent.userSet cs)

/-- User and password; an empty password is none. -/
def userInfo (cs : List Char) : String × Option String :=
  match cut ':' cs with
  | (user, some (c :: password)) => (encodeUser user, some (encodeUser (c :: password)))
  | (user, _) => (encodeUser user, none)

/-- The authority of a text that `rest` follows. -/
def authority? (scheme : String) (cs rest : List Char) : Except Fault Authority := do
  let special := isSpecial scheme
  let (info, hostPort) := cutUser cs
  if info == some [] && hostPort.isEmpty && !rest.isEmpty then throw .emptyHost
  let (user, password) := userInfo (info.getD [])
  let (hostText, portText) := cutPort false hostPort
  if hostText.isEmpty then
    if special || portText.isSome || user ≠ "" || password.isSome then throw .emptyHost
    else pure { user, password, host := none, port := none }
  else
    let host ← if special then Host.special? hostText else Host.verbatim? hostText
    let port ← port? scheme (portText.getD [])
    pure { user, password, host := some host, port }

def isSingleDot (segment : List Char) : Bool :=
  let s := lowerChars segment
  s == ['.'] || s == "%2e".toList

def isDoubleDot (segment : List Char) : Bool :=
  let s := lowerChars segment
  s == ['.', '.'] || s == ".%2e".toList || s == "%2e.".toList || s == "%2e%2e".toList

/-- The text between slashes. -/
def segments (special : Bool) : List Char → List (List Char)
  | [] => [[]]
  | c :: cs =>
    if isSlash special c then [] :: segments special cs
    else match segments special cs with
      | [] => [[c]]
      | s :: ss => (c :: s) :: ss

/-- Resolves dot segments on top of those that are `done`, which stand in reverse. A
dot segment at the end leaves an empty one. -/
def resolveDots (done : List (List Char)) : List (List Char) → List (List Char)
  | [] => done.reverse
  | s :: rest =>
    let last := rest.isEmpty
    if isDoubleDot s then
      let done := done.drop 1
      resolveDots (if last then [] :: done else done) rest
    else if isSingleDot s then
      resolveDots (if last then [] :: done else done) rest
    else resolveDots (Percent.encode Percent.pathSet s :: done) rest

/-- A path from its segments, each behind a slash. -/
def slashed (ss : List (List Char)) : String := String.ofList (ss.flatMap ('/' :: ·))

/-- A path that begins at the root. -/
def rootPath (special : Bool) (cs : List Char) : String :=
  let body := match cs with
    | c :: rest => if isSlash special c then rest else cs
    | [] => []
  slashed (resolveDots [] (segments special body))

def encodeQuery (special : Bool) (cs : List Char) : String :=
  String.ofList
    (Percent.encode (if special then Percent.specialQuerySet else Percent.querySet) cs)

def encodeFragment (cs : List Char) : String :=
  String.ofList (Percent.encode Percent.fragmentSet cs)

/-! ### Reading -/

/-- What follows the slashes before the authority. -/
def afterSlashes? (scheme : String) (cs : List Char) : Except Fault Url := do
  let special := isSpecial scheme
  let text := cs.takeWhile fun c => !isAuthorityEnd special c
  let rest := cs.dropWhile fun c => !isAuthorityEnd special c
  let authority ← authority? scheme text rest
  let (path, query, fragment) := cutPath rest
  pure {
    scheme
    authority := some authority
    path := if !special && path.isEmpty then "" else rootPath special path
    query := query.map (encodeQuery special)
    fragment := fragment.map encodeFragment }

/-- A letter and a colon or bar. -/
def isDrive : List Char → Bool
  | [a, b] => isAlpha a && (b = ':' || b = '|')
  | _ => false

/-- File URLs may lack a host. -/
def file? (cs : List Char) : Except Fault Url := do
  let (host, rest) ← match cs with
    | a :: b :: rest =>
      if isSlash true a && isSlash true b then
        let text := rest.takeWhile fun c => !isAuthorityEnd true c
        if text.isEmpty || isDrive text then pure (none, rest)
        else
          let host ← Host.special? text
          pure (if host = .domain "localhost" then none else some host,
            rest.dropWhile fun c => !isAuthorityEnd true c)
      else pure (none, cs)
    | _ => pure (none, cs)
  let (path, query, fragment) := cutPath rest
  pure {
    scheme := "file"
    authority := some { host }
    path := rootPath true path
    query := query.map (encodeQuery true)
    fragment := fragment.map encodeFragment }

/-- Other schemes have a host only behind two slashes. -/
def plain? (scheme : String) (cs : List Char) : Except Fault Url :=
  match cs with
  | '/' :: '/' :: rest => afterSlashes? scheme rest
  | _ =>
    let (path, query, fragment) := cutPath cs
    .ok {
      scheme
      authority := none
      path :=
        if path.head? == some '/' then rootPath false path
        else String.ofList (Percent.encode Percent.controls path)
      query := query.map (encodeQuery false)
      fragment := fragment.map encodeFragment }

/-- What follows a scheme and its colon. -/
def afterScheme? (scheme : String) (cs : List Char) : Except Fault Url :=
  if scheme == "file" then file? cs
  else if isSpecial scheme then afterSlashes? scheme (cs.dropWhile (isSlash true))
  else plain? scheme cs

/-- The URL that a text is. -/
def parse? (s : String) : Except Fault Url :=
  match cutScheme? (clean s.toList) with
  | none => .error .relative
  | some (scheme, rest) => afterScheme? scheme rest

/-! ### Writing -/

def Authority.print (a : Authority) : List Char :=
  let password := match a.password with
    | some p => ':' :: p.toList
    | none => []
  let user := a.user.toList ++ password
  (if user.isEmpty then [] else user ++ ['@'])
    ++ ((a.host.map Host.print).getD [])
    ++ (match a.port with
      | some n => ':' :: Nat.toDigits 10 n
      | none => [])

/-- Everything before the query. -/
def printBase (u : Url) : List Char :=
  u.scheme.toList ++ ':' :: (match u.authority with
    | some a => '/' :: '/' :: a.print
    | none => if startsWith ['/', '/'] u.path.toList then ['/', '.'] else []) ++ u.path.toList

def printQuery : Option String → List Char
  | some q => '?' :: q.toList
  | none => []

def printFragment : Option String → List Char
  | some f => '#' :: f.toList
  | none => []

def print (u : Url) : String :=
  String.ofList (u.printBase ++ printQuery u.query ++ printFragment u.fragment)

end Url

end Relay
