/-
# Tables

A table is a list of named entries in ascending order of their names, each name
once. Names are compared by code point, which is the order of their UTF-8 bytes.

Key definitions: `Table`, `Table.find?`, `Table.insert`, `Table.erase`.
Key theorems: `find?_insert_self`, `find?_insert_of_ne`, `mem_keys_iff`, `find?_erase_self`,
`find?_erase_of_ne`.
-/

namespace Relay

/-- Named entries, ascending by name. -/
abbrev Table (α : Type) := List (String × α)

namespace Table

variable {α β : Type}

def find? (t : Table α) (name : String) : Option α :=
  match t with
  | [] => none
  | (k, v) :: rest => if k = name then some v else find? rest name

/-- Puts an entry at its place; an entry of the same name is replaced. -/
def insert (t : Table α) (name : String) (value : α) : Table α :=
  match t with
  | [] => [(name, value)]
  | (k, v) :: rest =>
    if k = name then (name, value) :: rest
    else if name < k then (name, value) :: (k, v) :: rest
    else (k, v) :: insert rest name value

def erase (t : Table α) (name : String) : Table α :=
  t.filter fun entry => !(entry.1 == name)

/-- Enters all pairs in order, later ones over earlier ones of the same name. -/
def ofPairs (pairs : List (String × α)) : Table α :=
  pairs.foldl (fun t entry => insert t entry.1 entry.2) []

def contains (t : Table α) (name : String) : Bool := (t.find? name).isSome

def keys (t : Table α) : List String := t.map (·.1)

def mapValues (f : α → β) (t : Table α) : Table β := t.map fun entry => (entry.1, f entry.2)

theorem find?_insert_self (t : Table α) (name : String) (value : α) :
    find? (insert t name value) name = some value := by
  induction t with
  | nil => simp [insert, find?]
  | cons entry rest ih =>
    obtain ⟨k, v⟩ := entry
    unfold insert
    split
    · simp [find?]
    · split
      · simp [find?]
      · rename_i hk _
        simp [find?, hk, ih]

theorem find?_insert_of_ne (t : Table α) {name other : String} (value : α) (h : other ≠ name) :
    find? (insert t name value) other = find? t other := by
  induction t with
  | nil => simp [insert, find?, Ne.symm h]
  | cons entry rest ih =>
    obtain ⟨k, v⟩ := entry
    unfold insert
    split
    · rename_i hk
      subst hk
      simp [find?, Ne.symm h]
    · split
      · simp [find?, Ne.symm h]
      · simp only [find?]
        split
        · rfl
        · exact ih

/-- The names are those that something is found under. -/
theorem mem_keys_iff (t : Table α) (name : String) :
    name ∈ keys t ↔ ∃ value, find? t name = some value := by
  induction t with
  | nil => simp [keys, find?]
  | cons entry rest ih =>
    obtain ⟨k, v⟩ := entry
    by_cases hk : k = name
    · simp [keys, find?, hk]
    · have hcons : name ∈ keys ((k, v) :: rest) ↔ name ∈ keys rest := by
        simp [keys, Ne.symm hk]
      rw [hcons, ih, find?, if_neg hk]

theorem find?_erase_self (t : Table α) (name : String) : find? (erase t name) name = none := by
  induction t with
  | nil => rfl
  | cons entry rest ih =>
    obtain ⟨k, v⟩ := entry
    unfold erase at ih ⊢
    by_cases hk : k = name
    · simpa [hk] using ih
    · simpa [hk, find?] using ih

theorem find?_erase_of_ne (t : Table α) {name other : String} (h : other ≠ name) :
    find? (erase t name) other = find? t other := by
  induction t with
  | nil => rfl
  | cons entry rest ih =>
    obtain ⟨k, v⟩ := entry
    unfold erase at ih ⊢
    by_cases hk : k = name
    · subst hk
      simpa [find?, Ne.symm h] using ih
    · by_cases ho : k = other
      · subst ho
        simp [h, find?]
      · simpa [hk, ho, find?] using ih

end Table

/-- A set of texts in ascending order, each once. -/
abbrev TextSet := List String

namespace TextSet

def insert (s : TextSet) (x : String) : TextSet :=
  match s with
  | [] => [x]
  | y :: rest =>
    if y = x then y :: rest
    else if x < y then x :: y :: rest
    else y :: insert rest x

def ofList (xs : List String) : TextSet := xs.foldl insert []

def union (s t : TextSet) : TextSet := t.foldl insert s

theorem mem_insert (s : TextSet) (x y : String) : y ∈ insert s x ↔ y = x ∨ y ∈ s := by
  induction s with
  | nil => simp [insert]
  | cons z rest ih =>
    unfold insert
    split
    · rename_i h; subst h; simp
    · split
      · simp
      · simp only [List.mem_cons, ih]
        grind

end TextSet

end Relay
