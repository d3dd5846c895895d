/-
# Queries of a URL

Pairs are appended to a query either form-encoded or as they are. In both cases
everything else of the URL, the query it had included, stays.

Key definitions: `Url.setQuery`, `Url.appendPair`, `Url.appendEncoded`,
`Url.appendVerbatim`, `Url.pairs`.
-/
import Relay.Url.Basic

namespace Relay.Url

open Relay.Text

/-- Replaces the query by a text, in which tabs and line ends are dropped. -/
def setQuery (u : Url) (text : List Char) : Url :=
  { u with query := some (encodeQuery (isSpecial u.scheme) (text.filter (!isTabOrNewline ·))) }

/-- Appends one encoded pair behind the query, with a separator unless the query is
empty. -/
def appendPair (u : Url) (name value : String) : Url :=
  let old := (u.query.getD "").toList
  let separator := if old.isEmpty then [] else ['&']
  { u with query := some (String.ofList (old ++ separator ++ Percent.formPair name value)) }

/-- Appends pairs form-encoded. -/
def appendEncoded (u : Url) (pairs : List (String × String)) : Url :=
  pairs.foldl (fun u p => u.appendPair p.1 p.2) u

/-- Appends pairs as they are. -/
def appendVerbatim (u : Url) (pairs : List (String × String)) : Url :=
  let raw := pairs.map fun p => p.1.toList ++ '=' :: p.2.toList
  let old := (u.query.getD "").toList
  u.setQuery (join ['&'] (if old.isEmpty then raw else old :: raw))

/-- The decoded pairs of the query; empty pieces are none. -/
def pairs (u : Url) : List (String × String) :=
  ((pieces '&' (u.query.getD "").toList).filter (!·.isEmpty)).map fun piece =>
    let (name, value) := cut '=' piece
    (Percent.formDecode name, Percent.formDecode (value.getD []))

end Relay.Url
