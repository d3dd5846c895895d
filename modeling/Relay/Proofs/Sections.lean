/-
# Sections of a form

A request body is read from a section of the action's form, entry by entry; the first fault is
the failure of the request, and nothing is built. What is embedded is a text that is not blank, or
an array with something in it. It is sent as it stands, and nobody looks at the items of the
array. So a section of embeddings is accepted exactly if it has a model and one of the two, and
its input is one of texts unless it is an array with something else in it.

Key definitions: `HasText`, `HasItems`, `EmbeddingsRequest.HasInput`, `EmbeddingsRequest.HasTexts`.
Key theorems: `readSection_of_error`, `model?_cases`, `EmbeddingsRequest.ofSection?_settled`,
`EmbeddingsRequest.ofSection?_input`.
-/
import Relay.Proofs.Except
import Relay.Connector.OpenAi.Commands

namespace Relay.OpenAi

variable {s : Section}

/-! ### Sections and their entries -/

/-- The first fault of a section is the failure of what is read from it. -/
theorem readSection_of_error {α : Type} {form : Table Json} {name : String}
    {read : Section → Except FormFault α} {fault : FormFault}
    (hsection : form.find? name = some (.obj s)) (h : read s = .error fault) :
    ((section? form name).bind read).mapError FormFault.failure = .error fault.failure := by
  have hread : (section? form name).bind read = .error fault := by
    rw [section?, hsection]
    exact h
  rw [hread]
  rfl

/-- An entry that is text and not blank. -/
def HasText (s : Section) (field : String) : Prop :=
  ∃ text, s.find? field = some (.str text) ∧ Text.isBlank text = false

/-- An entry that is an array with something in it, of which this holds. -/
def HasItems (s : Section) (field : String) (p : List Json → Prop) : Prop :=
  ∃ items, s.find? field = some (.arr items) ∧ items ≠ [] ∧ p items

theorem exists_trimmedText?_iff {field : String} :
    (∃ text, trimmedText? s field = some text) ↔ HasText s field := by
  unfold trimmedText? HasText
  cases hentry : s.find? field with
  | none => simp
  | some v =>
    cases v with
    | str text =>
      have hblank : Text.isBlank text = false ↔ Text.trim text ≠ "" := by
        rw [← Bool.not_eq_true, Text.isBlank_iff_trim]
      simp [Json.text?, hblank]
    | _ => simp [Json.text?]

/-- A section without a model text fails for it. -/
theorem model?_cases (s : Section) :
    (∃ model, model? s = .ok model) ∧ HasText s "model" ∨
      model? s = .error .missingModel ∧ ¬HasText s "model" := by
  unfold model?
  rw [← exists_trimmedText?_iff]
  cases trimmedText? s "model" with
  | none => exact .inr ⟨rfl, by simp⟩
  | some model => exact .inl ⟨⟨model, rfl⟩, model, rfl⟩

namespace EmbeddingsRequest

/-- A text that is not blank, or an array with something in it. -/
def HasInput (s : Section) : Prop := HasText s "input" ∨ HasItems s "input" fun _ => True

/-- A text that is not blank, or an array of one or more texts. -/
def HasTexts (s : Section) : Prop :=
  HasText s "input" ∨ HasItems s "input" fun items => ∀ x ∈ items, ∃ text, x = .str text

/-- A section without an input fails for it; an input is taken as it stands. -/
theorem input?_cases (s : Section) :
    (∃ input, input? s = .ok input ∧ s.find? "input" = some input) ∧ HasInput s ∨
      input? s = .error .missingInput ∧ ¬HasInput s := by
  unfold input? HasInput HasText HasItems
  cases hentry : s.find? "input" with
  | none => exact .inr ⟨rfl, by simp⟩
  | some v =>
    cases v with
    | str text =>
      dsimp only
      cases hblank : Text.isBlank text with
      | true => exact .inr ⟨rfl, by simp [hblank]⟩
      | false => exact .inl ⟨⟨_, rfl, rfl⟩, .inl ⟨text, rfl, hblank⟩⟩
    | arr items =>
      cases items with
      | nil => exact .inr ⟨rfl, by simp⟩
      | cons x xs => exact .inl ⟨⟨_, rfl, rfl⟩, .inr ⟨x :: xs, rfl, by simp, trivial⟩⟩
    | _ => exact .inr ⟨rfl, by simp⟩

/-- What comes of a section. -/
inductive Settled (s : Section) : Except FormFault EmbeddingsRequest → Prop
  | accepted (r : EmbeddingsRequest) (hmodel : HasText s "model") (hinput : HasInput s)
    (hsent : s.find? "input" = some r.input) : Settled s (.ok r)
  | missingModel (hmodel : ¬HasText s "model") : Settled s (.error .missingModel)
  | missingInput (hmodel : HasText s "model") (hinput : ¬HasInput s) :
    Settled s (.error .missingInput)

/-- **A section is accepted with its input, or fails for the first that is missing.** -/
theorem ofSection?_settled (s : Section) : Settled s (ofSection? s) := by
  unfold ofSection?
  rcases model?_cases s with ⟨⟨model, hread⟩, hmodel⟩ | ⟨hread, hmodel⟩
  · rw [hread]
    rcases input?_cases s with ⟨⟨input, hread, hsent⟩, hinput⟩ | ⟨hread, hinput⟩
    · rw [hread]
      exact .accepted _ hmodel hinput hsent
    · rw [hread]
      exact .missingInput hmodel hinput
  · rw [hread]
    exact .missingModel hmodel

theorem exists_ofSection?_iff :
    (∃ r, ofSection? s = .ok r) ↔ HasText s "model" ∧ HasInput s := by
  have hsettled := ofSection?_settled s
  constructor
  · rintro ⟨r, hr⟩
    rw [hr] at hsettled
    cases hsettled with
    | accepted _ hmodel hinput _ => exact ⟨hmodel, hinput⟩
  · rintro ⟨hmodel, hinput⟩
    cases hresult : ofSection? s with
    | ok r => exact ⟨r, rfl⟩
    | error fault =>
      rw [hresult] at hsettled
      cases hsettled with
      | missingModel hnone => exact absurd hmodel hnone
      | missingInput _ hnone => exact absurd hinput hnone

/-- An array with something in it that is no text. -/
def HasOther (s : Section) : Prop :=
  HasItems s "input" fun items => ∃ x ∈ items, ∀ text, x ≠ .str text

/-- An input is one of texts, or an array with something else in it. -/
theorem hasInput_iff : HasInput s ↔ HasTexts s ∨ HasOther s := by
  constructor
  · rintro (htext | ⟨items, hentry, hne, -⟩)
    · exact .inl (.inl htext)
    · by_cases htexts : ∀ x ∈ items, ∃ text, x = .str text
      · exact .inl (.inr ⟨items, hentry, hne, htexts⟩)
      · exact .inr ⟨items, hentry, hne, by simpa using htexts⟩
  · rintro ((htext | ⟨items, hentry, hne, -⟩) | ⟨items, hentry, hne, -⟩)
    · exact .inl htext
    · exact .inr ⟨items, hentry, hne, trivial⟩
    · exact .inr ⟨items, hentry, hne, trivial⟩

theorem HasOther.not_hasTexts (h : HasOther s) : ¬HasTexts s := by
  obtain ⟨items, hentry, -, x, hx, hother⟩ := h
  rintro (⟨text, htext, -⟩ | ⟨items', hentry', -, htexts⟩)
  · cases hentry.symm.trans htext
  · cases hentry.symm.trans hentry'
    obtain ⟨text, rfl⟩ := htexts x hx
    exact hother text rfl

/-- Sections of texts are those that are accepted, but for arrays with something else in them. -/
theorem accepts_texts_iff : ((∃ r, ofSection? s = .ok r) ↔ HasText s "model" ∧ HasTexts s) ↔
    ¬(HasText s "model" ∧ HasOther s) := by
  rw [exists_ofSection?_iff, hasInput_iff]
  constructor
  · rintro hiff ⟨hmodel, hother⟩
    exact hother.not_hasTexts (hiff.mp ⟨hmodel, .inr hother⟩).2
  · rintro hnot
    constructor
    · rintro ⟨hmodel, htexts | hother⟩
      · exact ⟨hmodel, htexts⟩
      · exact absurd ⟨hmodel, hother⟩ hnot
    · rintro ⟨hmodel, htexts⟩
      exact ⟨hmodel, .inl htexts⟩

theorem field?_input (r : EmbeddingsRequest) : r.toJson.field? "input" = some r.input := by
  obtain ⟨model, input, encodingFormat⟩ := r
  cases encodingFormat <;> rfl

/-- **Which sections of embeddings are accepted.** They need a model and an input, which is sent
as it stands; without one of them no request is built, and the fault names the first that is
missing. The input is one of texts unless it is an array with something else in it. -/
theorem ofSection?_input (s : Section) :
    ((∃ r, ofSection? s = .ok r) ↔ HasText s "model" ∧ HasInput s) ∧
    (((∃ r, ofSection? s = .ok r) ↔ HasText s "model" ∧ HasTexts s) ↔
      ¬(HasText s "model" ∧ HasOther s)) ∧
    (∀ r, ofSection? s = .ok r → r.toJson.field? "input" = s.find? "input") ∧
    ∀ fault, ofSection? s = .error fault →
      (fault = .missingModel ∧ ¬HasText s "model" ∨
        fault = .missingInput ∧ HasText s "model" ∧ ¬HasInput s) ∧
      ∀ (a : Action) (d : Datasource) (i : Invocation),
        a.formData.find? "embeddings" = some (.obj s) →
          build .embeddings a d i = .error fault.failure := by
  have hsettled := ofSection?_settled s
  refine ⟨exists_ofSection?_iff, accepts_texts_iff, fun r hr => ?_, fun fault hfault => ⟨?_, ?_⟩⟩
  · rw [hr] at hsettled
    cases hsettled with
    | accepted _ _ _ hsent => exact (field?_input r).trans hsent.symm
  · rw [hfault] at hsettled
    cases hsettled with
    | missingModel hmodel => exact .inl ⟨rfl, hmodel⟩
    | missingInput hmodel hinput => exact .inr ⟨rfl, hmodel, hinput⟩
  · intro a d i hsection
    unfold build
    dsimp only
    rw [readSection_of_error hsection hfault]
    rfl

/-- A section whose input is an array of one number. -/
def numbered : Section := [("input", .arr [.num (.int 1)]), ("model", .str "m")]

/-- Not only texts are accepted: an array of a number is as well. -/
theorem accepts_no_texts :
    ¬∀ s : Section, (∃ r, ofSection? s = .ok r) ↔ HasText s "model" ∧ HasTexts s := by
  intro h
  have hother : HasOther numbered := by
    refine ⟨_, rfl, by simp, _, List.mem_cons_self, ?_⟩
    rintro text ⟨⟩
  have hread : ofSection? numbered = .ok { model := "m", input := .arr [.num (.int 1)] } :=
    except_eq_ok_of_toOption (by decide)
  exact hother.not_hasTexts ((h numbered).mp ⟨_, hread⟩).2

end EmbeddingsRequest

end Relay.OpenAi
