/-
# Documents as written

A draft is a JSON text after its grammar is checked and before anyone has asked
for its contents. Entries keep their order and may repeat a name, and what the
grammar admits but no value can hold is kept as `unreadable`: a number beyond
the doubles, an escape for half of a surrogate pair, a nesting that is too deep.
A reader that passes over a part is not troubled by what is unreadable in it.

Key definitions: `Draft`, `Draft.value?`, `Json.toDraft`.
Key theorem: `isSome_value?_toDraft`.
-/
import Relay.Json.Basic

namespace Relay

inductive Draft where
  | null
  | bool (b : Bool)
  | num (n : Json.Number)
  | str (s : String)
  | arr (items : List Draft)
  | obj (fields : List (String × Draft))
  | unreadable
  deriving Repr, Inhabited

namespace Draft

mutual

/-- The value of a draft, if all of it can be read. Of entries with one name the
last counts. -/
def value? : Draft → Option Json
  | .null => some .null
  | .bool b => some (.bool b)
  | .num n => some (.num n)
  | .str s => some (.str s)
  | .arr items => (values? items).map .arr
  | .obj fields => (fieldValues? fields).map fun pairs => Json.object pairs
  | .unreadable => none

def values? : List Draft → Option (List Json)
  | [] => some []
  | d :: ds => do
    let x ← value? d
    let xs ← values? ds
    pure (x :: xs)

def fieldValues? : List (String × Draft) → Option (List (String × Json))
  | [] => some []
  | (k, d) :: ds => do
    let x ← value? d
    let xs ← fieldValues? ds
    pure ((k, x) :: xs)

end

end Draft

namespace Json

mutual

/-- A value as a document. -/
def toDraft : Json → Draft
  | .null => .null
  | .bool b => .bool b
  | .num n => .num n
  | .str s => .str s
  | .arr items => .arr (itemDrafts items)
  | .obj fields => .obj (fieldDrafts fields)

def itemDrafts : List Json → List Draft
  | [] => []
  | x :: xs => toDraft x :: itemDrafts xs

def fieldDrafts : List (String × Json) → List (String × Draft)
  | [] => []
  | (k, x) :: xs => (k, toDraft x) :: fieldDrafts xs

end

mutual

/-- A value that was written can be read in full. -/
theorem isSome_value?_toDraft : ∀ j : Json, j.toDraft.value?.isSome = true
  | .null => rfl
  | .bool b => rfl
  | .num n => rfl
  | .str s => rfl
  | .arr items => by
    show ((Draft.values? (itemDrafts items)).map Json.arr).isSome = true
    rw [Option.isSome_map, isSome_values?_itemDrafts items]
  | .obj fields => by
    show ((Draft.fieldValues? (fieldDrafts fields)).map _).isSome = true
    rw [Option.isSome_map, isSome_fieldValues?_fieldDrafts fields]

theorem isSome_values?_itemDrafts : ∀ items : List Json,
    (Draft.values? (itemDrafts items)).isSome = true
  | [] => rfl
  | x :: xs => by
    obtain ⟨v, hv⟩ := Option.isSome_iff_exists.mp (isSome_value?_toDraft x)
    obtain ⟨vs, hvs⟩ := Option.isSome_iff_exists.mp (isSome_values?_itemDrafts xs)
    rw [itemDrafts, Draft.values?, hv, hvs]
    rfl

theorem isSome_fieldValues?_fieldDrafts : ∀ fields : List (String × Json),
    (Draft.fieldValues? (fieldDrafts fields)).isSome = true
  | [] => rfl
  | (k, x) :: fields => by
    obtain ⟨v, hv⟩ := Option.isSome_iff_exists.mp (isSome_value?_toDraft x)
    obtain ⟨vs, hvs⟩ := Option.isSome_iff_exists.mp (isSome_fieldValues?_fieldDrafts fields)
    rw [fieldDrafts, Draft.fieldValues?, hv, hvs]
    rfl

end

end Json

end Relay
