/-
# Records in documents

A stored record is an object, or an array of its fields in their order. In an
object unknown names are passed over and a known name may stand once; an array
may stop early but not be longer than the record. What a field does when it is
missing is its own: it may be required, optional or have a default.

Key definitions: `Slot`, `Draft.slots?`, `Slot.required`, `Slot.optional`,
`Slot.orElse`, `Draft.word?`.
-/
import Relay.Json.Draft

namespace Relay

/-- What a document says of one field: nothing, the positional form ended before
it, or something to read. -/
inductive Slot where
  | absent
  | short
  | given (d : Draft)
  deriving Repr

namespace Slot

variable {α : Type}

/-- A field that must be there. -/
def required (read : Draft → Option α) : Slot → Option α
  | .given d => read d
  | _ => none

/-- Null or a value. -/
def nullable (read : Draft → Option α) : Draft → Option (Option α)
  | .null => some none
  | d => (read d).map some

/-- A field that may be left out by name, though not by position. -/
def optional (read : Draft → Option α) : Slot → Option (Option α)
  | .absent => some none
  | .short => none
  | .given d => nullable read d

/-- A field with a value for when it is missing. -/
def orElse (default : α) (read : Draft → Option α) : Slot → Option α
  | .given d => read d
  | _ => some default

end Slot

namespace Draft

/-- The slot of one name among an object's entries; none when the name repeats. -/
def slotOf (fields : List (String × Draft)) (name : String) : Option Slot :=
  match fields.filter fun f => f.1 == name with
  | [] => some .absent
  | [f] => some (.given f.2)
  | _ => none

/-- The slots of a record with `n` fields from its positional form. -/
def positional : Nat → List Draft → Option (List Slot)
  | 0, [] => some []
  | 0, _ :: _ => none
  | n + 1, [] => (positional n []).map (Slot.short :: ·)
  | n + 1, d :: ds => (positional n ds).map (Slot.given d :: ·)

/-- The slots of a record whose fields have these names. -/
def slots? (names : List String) : Draft → Option (List Slot)
  | .obj fields => names.mapM (slotOf fields)
  | .arr items => positional names.length items
  | _ => none

def text? : Draft → Option String
  | .str s => some s
  | _ => none

def flag? : Draft → Option Bool
  | .bool b => some b
  | _ => none

/-- A whole number between `low` and `high`. -/
def int? (low high : Int) : Draft → Option Int
  | .num (.int n) => if low ≤ n ∧ n ≤ high then some n else none
  | _ => none

def list? {α : Type} (read : Draft → Option α) : Draft → Option (List α)
  | .arr items => items.mapM read
  | _ => none

/-- An object taken as a table; of entries with one name the last counts. -/
def table? {α : Type} (read : Draft → Option α) : Draft → Option (Table α)
  | .obj fields => (fields.mapM fun f => (read f.2).map (f.1, ·)).map Table.ofPairs
  | _ => none

/-- A word from a fixed list, written as a string or as the only name of an
object whose entry is null. -/
def word? : Draft → Option String
  | .str s => some s
  | .obj [(name, .null)] => some name
  | _ => none

end Draft

end Relay
