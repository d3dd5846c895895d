/-
# Checking a credential

A connector names the kinds of credential that it accepts; naming none, it
accepts any. A credential that is missing or has a blank part is an
authentication failure, one of the wrong kind a configuration failure.

Key definitions: `Credential.missingPart?`, `Credential.check`.
Key theorem: `Credential.check_eq_ok_iff`.
-/
import Relay.Credential.Basic
import Relay.Text.Split
import Relay.Failure

namespace Relay.Credential

/-- The first part of the credential that must not be blank and is. -/
def missingPart? : Credential → Option String
  | .none => Option.none
  | .bearer token => if Text.isBlank token.text then some "bearer token" else Option.none
  | .basic username _ => if Text.isBlank username then some "username" else Option.none
  | .apiKey name value _ _ =>
    if Text.isBlank name then some "API key name"
    else if Text.isBlank value.text then some "API key value"
    else Option.none
  | .oauth client =>
    if Text.isBlank client.id then some "client id"
    else if Text.isBlank client.secret.text then some "client secret"
    else Option.none

/-- Refuses a credential with a blank part. -/
def checkParts (c : Credential) : Except Failure Unit :=
  match c.missingPart? with
  | some part => .error (.authentication s!"{part} is missing")
  | Option.none => .ok ()

def checkPresent : Option Credential → Except Failure Unit
  | some c => c.checkParts
  | Option.none => .ok ()

/-- Refuses a credential that is not of an accepted kind or has a blank part. -/
def check (accepted : List Kind) (c : Option Credential) : Except Failure Unit :=
  let actual := kindOf c
  if accepted.isEmpty then checkPresent c
  else if actual == .none && !accepted.contains .none then
    let names := Text.joinText ", " (accepted.map Kind.describe)
    .error (.authentication s!"datasource has no credential; expected one of: {names}")
  else if !accepted.contains actual then
    .error (.configuration
      s!"authentication type `{actual.describe}` is not supported by this plugin")
  else checkPresent c

theorem checkPresent_some_eq_ok_iff {c : Credential} :
    checkPresent (some c) = .ok () ↔ c.missingPart? = Option.none := by
  show c.checkParts = .ok () ↔ _
  unfold checkParts
  cases c.missingPart? with
  | none => simp
  | some part => simp

/-- A credential passes if its kind is accepted and no part of it is blank. -/
theorem check_eq_ok_iff {accepted : List Kind} {c : Option Credential} :
    check accepted c = .ok () ↔
      (accepted = [] ∨ kindOf c ∈ accepted) ∧ checkPresent c = .ok () := by
  unfold check
  dsimp only
  split
  · rename_i hempty
    exact ⟨fun h => ⟨.inl (List.isEmpty_iff.mp hempty), h⟩, fun h => h.2⟩
  · rename_i hne
    have hempty : accepted ≠ [] := fun h => hne (List.isEmpty_iff.mpr h)
    split
    · rename_i hnone
      rw [Bool.and_eq_true, beq_iff_eq, Bool.not_eq_true', ← Bool.not_eq_true,
        List.contains_iff_mem] at hnone
      refine ⟨fun h => (nomatch h), fun ⟨hkind, _⟩ => ?_⟩
      rw [hnone.1] at hkind
      exact absurd (hkind.resolve_left hempty) hnone.2
    · split
      · rename_i hkind
        rw [Bool.not_eq_true', ← Bool.not_eq_true, List.contains_iff_mem] at hkind
        exact ⟨fun h => (nomatch h), fun h => absurd (h.1.resolve_left hempty) hkind⟩
      · rename_i hkind
        rw [Bool.not_eq_true', Bool.not_eq_false, List.contains_iff_mem] at hkind
        exact ⟨fun h => ⟨.inr hkind, h⟩, fun h => h.2⟩

end Relay.Credential
