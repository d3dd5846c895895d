/-
# Placeholders in text

A placeholder is an expression between double braces. The leftmost opening pair
counts, and the first closing pair behind it; the expression may span lines and
is trimmed. What was put in for a placeholder is not looked at again.

Key definitions: `Template.Piece`, `Template.pieces`, `Template.holes`,
`Template.hasHoles`, `Template.fill`.
-/
import Relay.Text.Blank
import Relay.Json.Print

namespace Relay.Template

/-- Literal text, or the expression of a placeholder. -/
inductive Piece where
  | text (cs : List Char)
  | hole (expression : String)
  deriving DecidableEq, Repr

/-- What stands before the first two neighbouring `c`, and what stands after. -/
def cutPair? (c : Char) : List Char → Option (List Char × List Char)
  | [] => none
  | [_] => none
  | x :: y :: rest =>
    if x = c ∧ y = c then some ([], rest)
    else (cutPair? c (y :: rest)).map fun (before, after) => (x :: before, after)

theorem length_of_cutPair? {c : Char} : ∀ {cs before after : List Char},
    cutPair? c cs = some (before, after) → cs.length = before.length + 2 + after.length
  | [], _, _, h => by simp [cutPair?] at h
  | [_], _, _, h => by simp [cutPair?] at h
  | x :: y :: rest, before, after, h => by
    unfold cutPair? at h
    split at h
    · simp only [Option.some.injEq, Prod.mk.injEq] at h
      obtain ⟨rfl, rfl⟩ := h
      simp; omega
    · simp only [Option.map_eq_some_iff, Prod.mk.injEq, Prod.exists] at h
      obtain ⟨b, a, hc, rfl, rfl⟩ := h
      have := length_of_cutPair? hc
      simp only [List.length_cons] at *
      omega

/-- The text cut into literal stretches and placeholders. -/
def pieces (cs : List Char) : List Piece :=
  match _hopen : cutPair? '{' cs with
  | none => [.text cs]
  | some (literal, inner) =>
    match _hclose : cutPair? '}' inner with
    | none => [.text cs]
    | some (expression, rest) =>
      .text literal :: .hole (String.ofList (Text.trimChars expression)) :: pieces rest
termination_by cs.length
decreasing_by
  have h1 := length_of_cutPair? _hopen
  have h2 := length_of_cutPair? _hclose
  omega

/-- The expressions of the placeholders, left to right. -/
def holes (text : String) : List String :=
  (pieces text.toList).filterMap fun
    | .hole expression => some expression
    | .text _ => none

def hasHoles (text : String) : Bool := !(holes text).isEmpty

/-- The text of the pieces with every placeholder replaced. -/
def fill (value : String → String) : List Piece → List Char
  | [] => []
  | .text cs :: rest => cs ++ fill value rest
  | .hole expression :: rest => (value expression).toList ++ fill value rest

end Relay.Template
