/-
# JSON values

Numbers are whole numbers in the range of 64-bit words, signed or unsigned, or
doubles. The entries of an object stand in ascending order, each name once; every
reader builds them with `Table.insert`.

Key definitions: `Json`, `Json.Number`, `Json.field?`, `Json.nonNull`.
-/
import Relay.Table
import Relay.Decimal.Binary64

namespace Relay

/-- A number of a JSON value. -/
inductive Json.Number where
  | int (n : Int)
  | real (x : Binary64)
  deriving DecidableEq, Repr, Inhabited

inductive Json where
  | null
  | bool (b : Bool)
  | num (n : Json.Number)
  | str (s : String)
  | arr (items : List Json)
  | obj (fields : List (String × Json))
  deriving Repr, Inhabited

namespace Json

def ofNat (n : Nat) : Json := .num (.int n)
def ofInt (n : Int) : Json := .num (.int n)

/-- The text or null. -/
def ofText? : Option String → Json
  | none => .null
  | some s => .str s

/-- The value or null. -/
def orNull : Option Json → Json
  | none => .null
  | some j => j

/-- An object whose entries are given in any order. -/
def object (fields : List (String × Json)) : Json := .obj (Table.ofPairs fields)

/-- The entry of an object. -/
def field? (name : String) : Json → Option Json
  | .obj fields => Table.find? fields name
  | _ => none

def text? : Json → Option String
  | .str s => some s
  | _ => none

def items? : Json → Option (List Json)
  | .arr items => some items
  | _ => none

def isObject : Json → Bool
  | .obj _ => true
  | _ => false

def isNull : Json → Bool
  | .null => true
  | _ => false

mutual

/-- Equality of values, number by number and text by text. -/
def same : Json → Json → Bool
  | .null, .null => true
  | .bool a, .bool b => a == b
  | .num a, .num b => a == b
  | .str a, .str b => a == b
  | .arr xs, .arr ys => sameItems xs ys
  | .obj xs, .obj ys => sameFields xs ys
  | _, _ => false

def sameItems : List Json → List Json → Bool
  | [], [] => true
  | x :: xs, y :: ys => same x y && sameItems xs ys
  | _, _ => false

def sameFields : List (String × Json) → List (String × Json) → Bool
  | [], [] => true
  | (k, x) :: xs, (l, y) :: ys => k == l && same x y && sameFields xs ys
  | _, _ => false

end

mutual

theorem same_iff : ∀ x y : Json, same x y = true ↔ x = y
  | .null, y => by cases y <;> simp [same]
  | .bool a, y => by cases y <;> simp [same]
  | .num a, y => by cases y <;> simp [same]
  | .str a, y => by cases y <;> simp [same]
  | .arr xs, y => by
    cases y with
    | arr ys => simp [same, sameItems_iff xs ys]
    | _ => simp [same]
  | .obj xs, y => by
    cases y with
    | obj ys => simp [same, sameFields_iff xs ys]
    | _ => simp [same]

theorem sameItems_iff : ∀ xs ys : List Json, sameItems xs ys = true ↔ xs = ys
  | [], ys => by cases ys <;> simp [sameItems]
  | x :: xs, ys => by
    cases ys with
    | nil => simp [sameItems]
    | cons y ys => simp [sameItems, same_iff x y, sameItems_iff xs ys]

theorem sameFields_iff : ∀ xs ys : List (String × Json), sameFields xs ys = true ↔ xs = ys
  | [], ys => by cases ys <;> simp [sameFields]
  | (k, x) :: xs, ys => by
    cases ys with
    | nil => simp [sameFields]
    | cons y ys =>
      obtain ⟨l, y⟩ := y
      simp [sameFields, same_iff x y, sameFields_iff xs ys, and_assoc]

end

instance : DecidableEq Json := fun x y =>
  decidable_of_iff (same x y = true) (same_iff x y)

end Json

end Relay
