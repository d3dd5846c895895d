/-
# The pool of credentials

The pool keeps one credential for each datasource of each connector, with the
version under which it was put there. Versions count up over the whole pool, so
each names one credential. An entry belongs to the identity of a credential: a
renewed token keeps the entry, any other change replaces it.

Key definitions: `Pool`, `Pool.key`, `Pool.enter`, `Pool.store`, `Pool.drop`.
Key theorems: `find?_store_self`, `find?_store_of_ne`, `next_store`, `find?_enter_self`,
`find?_replace_self`, `find?_drop_of_ne`.
-/
import Relay.Connection

namespace Relay

structure Pool.Entry where
  /-- Of the credential that the entry was made for. -/
  identity : Option Credential
  version : Nat
  credential : Option Credential
  deriving DecidableEq, Inhabited

structure Pool where
  entries : Table Pool.Entry := []
  /-- The version that comes next. -/
  next : Nat := 1
  deriving DecidableEq, Inhabited

namespace Pool

/-- Where the credential of a datasource is kept. -/
def key (connector datasource : String) : String := connector ++ ":" ++ datasource

def find? (p : Pool) (key : String) : Option Entry := p.entries.find? key

def size (p : Pool) : Nat := p.entries.length

/-- Puts a credential under the next version. -/
def store (p : Pool) (key : String) (identity credential : Option Credential) : Pool :=
  { entries := p.entries.insert key ⟨identity, p.next, credential⟩, next := p.next + 1 }

/-- Has an entry for the credential: the one it has already, or a new one. -/
def enter (p : Pool) (key : String) (credential : Option Credential) : Pool :=
  let identity := credential.map Credential.identity
  match p.find? key with
  | some entry =>
    if entry.identity = identity then p else p.store key identity credential
  | none => p.store key identity credential

/-- Puts another credential of the same identity in the place of an entry. -/
def replace (p : Pool) (key : String) (credential : Option Credential) : Pool :=
  match p.find? key with
  | some entry => p.store key entry.identity credential
  | none => p

/-- Takes an entry out; versions go on counting. -/
def drop (p : Pool) (key : String) : Pool := { p with entries := p.entries.erase key }

/-- The connection that an entry stands for. -/
def Entry.connection (e : Entry) : Connection := ⟨e.version, e.credential⟩

@[simp] theorem find?_store_self (p : Pool) (key : String) (identity credential) :
    (p.store key identity credential).find? key = some ⟨identity, p.next, credential⟩ :=
  Table.find?_insert_self ..

theorem find?_store_of_ne (p : Pool) {key other : String} (identity credential)
    (h : other ≠ key) : (p.store key identity credential).find? other = p.find? other :=
  Table.find?_insert_of_ne _ _ h

@[simp] theorem next_store (p : Pool) (key : String) (identity credential) :
    (p.store key identity credential).next = p.next + 1 := rfl

@[simp] theorem next_drop (p : Pool) (key : String) : (p.drop key).next = p.next := rfl

@[simp] theorem find?_drop_self (p : Pool) (key : String) : (p.drop key).find? key = none :=
  Table.find?_erase_self ..

theorem find?_drop_of_ne (p : Pool) {key other : String} (h : other ≠ key) :
    (p.drop key).find? other = p.find? other :=
  Table.find?_erase_of_ne _ h

/-- After entering there is an entry for the credential. -/
theorem find?_enter_self (p : Pool) (key : String) (credential : Option Credential) :
    ∃ e, (p.enter key credential).find? key = some e ∧
      e.identity = credential.map Credential.identity := by
  unfold enter
  dsimp only
  split
  · rename_i entry hentry
    split
    · rename_i hidentity
      exact ⟨entry, hentry, hidentity⟩
    · exact ⟨_, find?_store_self .., rfl⟩
  · exact ⟨_, find?_store_self .., rfl⟩

theorem replace_of_find? {p : Pool} {key : String} {e : Entry} (h : p.find? key = some e)
    (credential : Option Credential) :
    p.replace key credential = p.store key e.identity credential := by
  rw [replace, h]

/-- A replaced entry keeps its identity and gets the next version. -/
theorem find?_replace_self {p : Pool} {key : String} {e : Entry} (h : p.find? key = some e)
    (credential : Option Credential) :
    (p.replace key credential).find? key = some ⟨e.identity, p.next, credential⟩ := by
  rw [replace_of_find? h, find?_store_self]

end Pool

end Relay
