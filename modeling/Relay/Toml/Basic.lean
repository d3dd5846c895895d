/-
# Configuration tables

A configuration text is a tree of named items. A table comes to be in one of
three ways: under a header of its own, on the way to a header that names a longer
path, or on the way to a key with dots. A table may be reopened only in the way
it came to be, and nothing may be given twice.

Key definitions: `Item`, `Origin`, `put?`, `openTable?`, `openEntry?`.
-/

namespace Relay.Toml

/-- How a table came to be. -/
inductive Origin where
  | header | implied | dotted
  deriving DecidableEq, Repr, Inhabited

/-- What a key names. A closed table is written in one value and stays as it is;
the tables of an array come to be under headers of their own. -/
inductive Item where
  | text (s : String)
  | int (n : Int)
  | real (written : String)
  | flag (b : Bool)
  | moment (written : String)
  | list (items : List Item)
  | closed (entries : List (String × Item))
  | table (origin : Origin) (entries : List (String × Item))
  | array (tables : List (List (String × Item)))
  deriving Inhabited

/-- The entries of a table in the order in which they were given. -/
abbrev Entries := List (String × Item)

/-- A table's origin and entries; what a step along a path works on. -/
abbrev Scope := Origin × Entries

/-- Replaces the entry of that name, or adds one at the end. -/
def Entries.set : Entries → String → Item → Entries
  | [], name, item => [(name, item)]
  | (k, v) :: rest, name, item =>
    if k = name then (k, item) :: rest else (k, v) :: Entries.set rest name item

/-- Changes the last table of an array. -/
def changeLast? (f : Entries → Option Entries) : List Entries → Option (List Entries)
  | [] => none
  | [t] => (f t).map ([·])
  | t :: u :: rest => (changeLast? f (u :: rest)).map (t :: ·)

/-- Walks down a path and changes the table at its end. Tables that are missing are
made with the origin `how`; a path with dots does not lead through tables that
have a header. -/
def change? (how : Origin) (f : Scope → Option Entries) : List String → Scope → Option Entries
  | [], scope => f scope
  | name :: path, (_, entries) =>
    match entries.lookup name with
    | none => do
      let inner ← change? how f path (how, [])
      pure (entries.set name (.table how inner))
    | some (.table origin inner) =>
      if how = .dotted ∧ origin = .header then none
      else do
        let inner ← change? how f path (origin, inner)
        pure (entries.set name (.table origin inner))
    | some (.array tables) => do
      let tables ← changeLast? (fun t => change? how f path (.header, t)) tables
      pure (entries.set name (.array tables))
    | some _ => none

/-- Gives `name` under a path with dots; the table at its end must have come to be
by such a path, or be the open table itself. -/
def put? (path : List String) (name : String) (item : Item) (scope : Scope) : Option Entries :=
  change? .dotted (fun (origin, entries) =>
    if (origin == .dotted) == path.isEmpty then none
    else match entries.lookup name with
      | some _ => none
      | none => some (entries.set name item)) path scope

/-- A header opens a new table, or one that was only on the way to others. -/
def openTable? (path : List String) (name : String) (root : Entries) : Option Entries :=
  change? .implied (fun (_, entries) =>
    match entries.lookup name with
    | none => some (entries.set name (.table .header []))
    | some (.table .implied inner) => some (entries.set name (.table .header inner))
    | some _ => none) path (.header, root)

/-- A header in double brackets opens one more table of an array. -/
def openEntry? (path : List String) (name : String) (root : Entries) : Option Entries :=
  change? .implied (fun (_, entries) =>
    match entries.lookup name with
    | none => some (entries.set name (.array [[]]))
    | some (.array tables) => some (entries.set name (.array (tables ++ [[]])))
    | some _ => none) path (.header, root)

end Relay.Toml
