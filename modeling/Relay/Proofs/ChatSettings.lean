/-
# The numbers of a conversation

A setting that is missing, null or blank text is left out of the request. Any other must name a
number: as one, or as text. What the text of a temperature may be is what spells a double, and so
also a word for infinity or NaN, and digits for a number beyond the doubles. Such a text is
accepted, and since JSON has no number for it, null is sent. That is the one way in which
something else than a finite number comes to be sent; the count of tokens has none. What names no
number is refused, and then there is no request.

Key definitions: `Unset`, `Given`, `Settled`, `NamesDouble`, `NamesNoNumber`, `NamesCount`,
`ChatRequest.TemperatureSent`, `Json.Number.Held`.
Key theorems: `number?_settled`, `isFinite_of_given`, `ofSection?_eq_ok_iff`, `accepted_iff`,
`ofSection?_settings`.
-/
import Relay.Proofs.Spelling
import Relay.Proofs.Sections

namespace Relay

/-- The number is one that a JSON value can hold: whole in the range of 64-bit words, or a finite
double. -/
def Json.Number.Held : Json.Number → Prop
  | .int n => -(Int.pow 2 63) ≤ n ∧ n < Int.pow 2 64
  | .real x => x.isFinite = true

namespace OpenAi

open Decimal

variable {α : Type} {s : Section} {field : String} {fault : FormFault}

/-! ### One setting -/

/-- The setting is left open: missing, null or blank text. -/
def Unset (s : Section) (field : String) : Prop :=
  ∀ v, s.find? field = some v → v = .null ∨ ∃ text, v = .str text ∧ Text.isBlank text = true

/-- The setting stands for this value, as a number or as text. -/
def Given (ofNumber : Json.Number → Option α) (ofText : String → Option α) (s : Section)
    (field : String) (x : α) : Prop :=
  (∃ n, s.find? field = some (.num n) ∧ ofNumber n = some x) ∨
    ∃ text, s.find? field = some (.str text) ∧ Text.isBlank text = false ∧
      ofText (Text.trim text) = some x

/-- What an entry is called when it is refused. -/
def told : Json → String
  | .str text => text
  | v => v.print

theorem Given.not_unset {ofNumber : Json.Number → Option α} {ofText : String → Option α} {x : α}
    (h : Given ofNumber ofText s field x) : ¬Unset s field := by
  intro hunset
  rcases h with ⟨n, hentry, -⟩ | ⟨text, hentry, hblank, -⟩
  · rcases hunset _ hentry with heq | ⟨text, heq, -⟩
    · cases heq
    · cases heq
  · rcases hunset _ hentry with heq | ⟨text', heq, hblank'⟩
    · cases heq
    · cases heq
      exact Bool.false_ne_true (hblank.symm.trans hblank')

/-- What comes of a setting. -/
inductive Settled (ofNumber : Json.Number → Option α) (ofText : String → Option α) (s : Section)
    (field : String) : Except FormFault (Option α) → Prop
  | unset (h : Unset s field) : Settled ofNumber ofText s field (.ok none)
  | given (x : α) (h : Given ofNumber ofText s field x) :
    Settled ofNumber ofText s field (.ok (some x))
  | refused (v : Json) (hentry : s.find? field = some v) (hset : ¬Unset s field)
    (h : ∀ x, ¬Given ofNumber ofText s field x) :
    Settled ofNumber ofText s field (.error (.invalidNumber field (told v)))

/-- **A setting is left open, stands for one value, or is refused by its name and content.** -/
theorem number?_settled (s : Section) (field : String) (ofNumber : Json.Number → Option α)
    (ofText : String → Option α) :
    Settled ofNumber ofText s field (number? s field ofNumber ofText) := by
  unfold number?
  cases hentry : s.find? field with
  | none => exact .unset (by simp [Unset, hentry])
  | some v =>
    cases v with
    | null => exact .unset (by simp [Unset, hentry])
    | bool b => exact .refused _ hentry (by simp [Unset, hentry]) (by simp [Given, hentry])
    | arr items => exact .refused _ hentry (by simp [Unset, hentry]) (by simp [Given, hentry])
    | obj fields => exact .refused _ hentry (by simp [Unset, hentry]) (by simp [Given, hentry])
    | num n =>
      dsimp only
      cases hn : ofNumber n with
      | none => exact .refused _ hentry (by simp [Unset, hentry]) (by simp [Given, hentry, hn])
      | some x => exact .given x (.inl ⟨n, hentry, hn⟩)
    | str text =>
      dsimp only
      cases hblank : Text.isBlank text with
      | true => exact .unset (by simp [Unset, hentry, hblank])
      | false =>
        cases htext : ofText (Text.trim text) with
        | none =>
          exact .refused _ hentry (by simp [Unset, hentry, hblank])
            (by simp [Given, hentry, htext])
        | some x => exact .given x (.inr ⟨text, hentry, hblank, htext⟩)

section

variable {ofNumber : Json.Number → Option α} {ofText : String → Option α}

theorem unset_of_number? (h : number? s field ofNumber ofText = .ok none) : Unset s field := by
  have hsettled := number?_settled s field ofNumber ofText
  rw [h] at hsettled
  cases hsettled with
  | unset hunset => exact hunset

theorem given_of_number? {x : α} (h : number? s field ofNumber ofText = .ok (some x)) :
    Given ofNumber ofText s field x := by
  have hsettled := number?_settled s field ofNumber ofText
  rw [h] at hsettled
  cases hsettled with
  | given _ hx => exact hx

/-- A setting that is accepted is left open or stands for something. -/
theorem accepted_of_number? {value : Option α} (h : number? s field ofNumber ofText = .ok value) :
    Unset s field ∨ ∃ x, Given ofNumber ofText s field x := by
  cases value with
  | none => exact .inl (unset_of_number? h)
  | some x => exact .inr ⟨x, given_of_number? h⟩

end

/-! ### What the two settings may name -/

/-- The temperature is a number, or text that spells a double. -/
def NamesDouble (s : Section) : Prop :=
  (∃ n, s.find? "temperature" = some (.num n)) ∨
    ∃ text, s.find? "temperature" = some (.str text) ∧ Spelled (Text.trim text)

/-- The temperature is text that spells a double, but not a finite one. -/
def NamesNoNumber (s : Section) : Prop :=
  ∃ text, s.find? "temperature" = some (.str text) ∧ Spelled (Text.trim text) ∧
    ¬SpelledFinite (Text.trim text)

/-- The count that a text is read as. -/
abbrev countText? (text : String) : Option Nat := (unsigned? text).map (·.toNat)

/-- The count of tokens is this number, or text that spells it. -/
def NamesCount (s : Section) (n : Nat) : Prop :=
  s.find? "maxTokens" = some (.num (.int n)) ∨
    ∃ text, s.find? "maxTokens" = some (.str text) ∧ SpelledCount (Text.trim text) n

/-- Text of which something is read without its blanks is not blank. -/
theorem not_blank_of_read (ofText : String → Option α) {text : String} {x : α}
    (hempty : ofText "" = none) (h : ofText (Text.trim text) = some x) :
    Text.isBlank text = false := by
  rw [Bool.eq_false_iff]
  intro hblank
  rw [(Text.isBlank_iff_trim text).mp hblank, hempty] at h
  cases h

theorem namesDouble_iff : NamesDouble s ↔ ∃ x, Given doubleOf float? s "temperature" x := by
  constructor
  · rintro (⟨n, hentry⟩ | ⟨text, hentry, hspelled⟩)
    · cases n with
      | int n => exact ⟨_, .inl ⟨_, hentry, rfl⟩⟩
      | real x => exact ⟨x, .inl ⟨_, hentry, rfl⟩⟩
    · obtain ⟨x, hx⟩ := exists_float?_iff.mpr hspelled
      exact ⟨x, .inr ⟨text, hentry, not_blank_of_read float? (by decide) hx, hx⟩⟩
  · rintro ⟨x, ⟨n, hentry, -⟩ | ⟨text, hentry, -, hx⟩⟩
    · exact .inl ⟨n, hentry⟩
    · exact .inr ⟨text, hentry, exists_float?_iff.mp ⟨x, hx⟩⟩

theorem namesCount_iff {n : Nat} : NamesCount s n ↔
    Given countOf countText? s "maxTokens" n := by
  constructor
  · rintro (hentry | ⟨text, hentry, hspelled⟩)
    · exact .inl ⟨_, hentry, by rw [countOf, if_pos (Int.natCast_nonneg n), Int.toNat_natCast]⟩
    · have hn := unsigned?_eq_some_iff.mpr hspelled
      exact .inr ⟨text, hentry,
        not_blank_of_read countText? (by decide) hn, hn⟩
  · rintro (⟨number, hentry, hn⟩ | ⟨text, hentry, -, hn⟩)
    · cases number with
      | real x => cases hn
      | int i =>
        rw [countOf] at hn
        by_cases hnonneg : 0 ≤ i
        · rw [if_pos hnonneg] at hn
          cases hn
          exact .inl (by rw [hentry, Int.toNat_of_nonneg hnonneg])
        · rw [if_neg hnonneg] at hn
          cases hn
    · exact .inr ⟨text, hentry, unsigned?_eq_some_iff.mp hn⟩

/-- **What is read of a temperature is finite, unless its text names no number.** -/
theorem isFinite_of_given {x : Binary64}
    (hheld : ∀ n, s.find? "temperature" = some (.num n) → n.Held)
    (h : Given doubleOf float? s "temperature" x) : x.isFinite = true ↔ ¬NamesNoNumber s := by
  rcases h with ⟨n, hentry, hx⟩ | ⟨text, hentry, -, hx⟩
  · have hnot : ¬NamesNoNumber s := by
      rintro ⟨text, htext, -⟩
      cases hentry.symm.trans htext
    refine iff_of_true ?_ hnot
    have hheld := hheld n hentry
    cases n with
    | real y =>
      cases hx
      exact hheld
    | int n =>
      cases hx
      rw [Binary64.isFinite_ofRatio _ (by decide), Nat.mul_one]
      exact Binary64.natAbs_lt_overflow hheld.1 hheld.2
  · rw [isFinite_of_float? hx]
    constructor
    · rintro hfinite ⟨text', hentry', -, hnot⟩
      cases hentry.symm.trans hentry'
      exact hnot hfinite
    · intro hnot
      refine Classical.byContradiction fun hinfinite => hnot ⟨text, hentry, ?_, hinfinite⟩
      exact exists_float?_iff.mp ⟨x, hx⟩

namespace ChatRequest

/-! ### A whole section -/

/-- There is a model, and there are messages with a role each. -/
def Conversation (s : Section) (model : String) (messages : List ChatMessage) : Prop :=
  model? s = .ok model ∧ messages? s = .ok messages ∧ checkMessages messages = .ok ()

theorem ofSection?_eq_ok_iff {r : ChatRequest} : ofSection? s = .ok r ↔
    Conversation s r.model r.messages ∧
      number? s "temperature" doubleOf float? = .ok r.temperature ∧
      number? s "maxTokens" countOf countText? = .ok r.maxTokens := by
  unfold ofSection? Conversation
  simp only [except_bind_eq_ok_iff]
  constructor
  · rintro ⟨model, hmodel, messages, hmessages, _, hcheck, temperature, htemperature, maxTokens,
      hmaxTokens, hr⟩
    cases hr
    exact ⟨⟨hmodel, hmessages, hcheck⟩, htemperature, hmaxTokens⟩
  · rintro ⟨⟨hmodel, hmessages, hcheck⟩, htemperature, hmaxTokens⟩
    exact ⟨_, hmodel, _, hmessages, (), hcheck, _, htemperature, _, hmaxTokens, rfl⟩

/-- A section with a conversation fails at its settings only. -/
theorem ofSection?_eq_error {model : String} {messages : List ChatMessage}
    (hconversation : Conversation s model messages) (h : ofSection? s = .error fault) :
    number? s "temperature" doubleOf float? = .error fault ∨
      number? s "maxTokens" countOf countText? = .error fault := by
  obtain ⟨hmodel, hmessages, hcheck⟩ := hconversation
  rw [ofSection?, hmodel] at h
  change (messages? s >>= _) = _ at h
  rw [hmessages] at h
  change (checkMessages messages >>= _) = _ at h
  rw [hcheck] at h
  change (number? s "temperature" doubleOf float? >>= _) = _ at h
  rcases except_bind_eq_error_iff.mp h with htemperature | ⟨temperature, -, h⟩
  · exact .inl htemperature
  · rcases except_bind_eq_error_iff.mp h with hmaxTokens | ⟨maxTokens, -, h⟩
    · exact .inr hmaxTokens
    · cases h

theorem field?_temperature (r : ChatRequest) :
    r.toJson.field? "temperature" = r.temperature.map doubleJson := by
  obtain ⟨model, messages, temperature, maxTokens⟩ := r
  cases temperature <;> cases maxTokens <;> rfl

theorem field?_maxTokens (r : ChatRequest) :
    r.toJson.field? "max_tokens" = r.maxTokens.map Json.ofNat := by
  obtain ⟨model, messages, temperature, maxTokens⟩ := r
  cases temperature <;> cases maxTokens <;> rfl

/-- What is sent as the temperature. -/
structure TemperatureSent (s : Section) (sent : Option Json) : Prop where
  absent : sent = none ↔ Unset s "temperature"
  null : sent = some .null ↔ NamesNoNumber s
  finite : ∀ v, sent = some v → v ≠ .null → ∃ x, v = .num (.real x) ∧ x.isFinite = true ∧
    Given doubleOf float? s "temperature" x

/-- What is sent as the count of tokens. -/
structure CountSent (s : Section) (sent : Option Json) : Prop where
  absent : sent = none ↔ Unset s "maxTokens"
  count : ∀ v, sent = some v → ∃ n, v = Json.ofNat n ∧ NamesCount s n

/-- The section has an entry that names no number, and the fault tells of it. -/
inductive Refused (s : Section) : FormFault → Prop
  | temperature (v : Json) (hentry : s.find? "temperature" = some v)
    (hset : ¬Unset s "temperature") (h : ¬NamesDouble s) :
    Refused s (.invalidNumber "temperature" (told v))
  | maxTokens (v : Json) (hentry : s.find? "maxTokens" = some v) (hset : ¬Unset s "maxTokens")
    (h : ∀ n, ¬NamesCount s n) : Refused s (.invalidNumber "maxTokens" (told v))

theorem temperature_sent {r : ChatRequest}
    (hheld : ∀ n, s.find? "temperature" = some (.num n) → n.Held) (h : ofSection? s = .ok r) :
    TemperatureSent s (r.toJson.field? "temperature") := by
  obtain ⟨-, htemperature, -⟩ := ofSection?_eq_ok_iff.mp h
  rw [field?_temperature]
  cases hgiven : r.temperature with
  | none =>
    rw [hgiven] at htemperature
    have hunset := unset_of_number? htemperature
    refine ⟨iff_of_true rfl hunset, iff_of_false (Option.some_ne_none _).symm ?_, ?_⟩
    · rintro ⟨text, hentry, hspelled, -⟩
      obtain ⟨x, hx⟩ := namesDouble_iff.mp (.inr ⟨text, hentry, hspelled⟩)
      exact hx.not_unset hunset
    · rintro v ⟨⟩
  | some x =>
    rw [hgiven] at htemperature
    have hx := given_of_number? htemperature
    have hfinite := isFinite_of_given hheld hx
    rw [Option.map_some, doubleJson]
    by_cases hnumber : x.isFinite = true
    · rw [if_pos hnumber]
      refine ⟨iff_of_false (Option.some_ne_none _) hx.not_unset,
        iff_of_false (by simp) (hfinite.mp hnumber), ?_⟩
      rintro v ⟨⟩ -
      exact ⟨x, rfl, hnumber, hx⟩
    · rw [if_neg hnumber]
      refine ⟨iff_of_false (Option.some_ne_none _) hx.not_unset,
        iff_of_true rfl (Classical.not_not.mp fun hnot => hnumber (hfinite.mpr hnot)), ?_⟩
      rintro v ⟨⟩ hnull
      exact absurd rfl hnull

theorem count_sent {r : ChatRequest} (h : ofSection? s = .ok r) :
    CountSent s (r.toJson.field? "max_tokens") := by
  obtain ⟨-, -, hmaxTokens⟩ := ofSection?_eq_ok_iff.mp h
  rw [field?_maxTokens]
  cases hgiven : r.maxTokens with
  | none =>
    rw [hgiven] at hmaxTokens
    refine ⟨iff_of_true rfl (unset_of_number? hmaxTokens), ?_⟩
    rintro v ⟨⟩
  | some n =>
    rw [hgiven] at hmaxTokens
    have hn := given_of_number? hmaxTokens
    refine ⟨iff_of_false (Option.some_ne_none _) hn.not_unset, fun v hv => ?_⟩
    exact ⟨n, (Option.some.inj hv).symm, namesCount_iff.mpr hn⟩

theorem refused_of_error {model : String} {messages : List ChatMessage}
    (hconversation : Conversation s model messages) (h : ofSection? s = .error fault) :
    Refused s fault := by
  rcases ofSection?_eq_error hconversation h with hfault | hfault
  · have hsettled := number?_settled s "temperature" doubleOf float?
    rw [hfault] at hsettled
    cases hsettled with
    | refused v hentry hset hgiven =>
      refine .temperature v hentry hset fun hnames => ?_
      obtain ⟨x, hx⟩ := namesDouble_iff.mp hnames
      exact hgiven x hx
  · have hsettled := number?_settled s "maxTokens" countOf countText?
    rw [hfault] at hsettled
    cases hsettled with
    | refused v hentry hset hgiven =>
      exact .maxTokens v hentry hset fun n hnames => hgiven n (namesCount_iff.mp hnames)

/-- A conversation is accepted exactly if each setting is left open or names a number. -/
theorem accepted_iff : (∃ r, ofSection? s = .ok r) ↔
    (∃ model messages, Conversation s model messages) ∧
      (Unset s "temperature" ∨ NamesDouble s) ∧
        (Unset s "maxTokens" ∨ ∃ n, NamesCount s n) := by
  constructor
  · rintro ⟨r, hr⟩
    obtain ⟨hconversation, htemperature, hmaxTokens⟩ := ofSection?_eq_ok_iff.mp hr
    refine ⟨⟨_, _, hconversation⟩, ?_, ?_⟩
    · rw [namesDouble_iff]
      exact accepted_of_number? htemperature
    · simp only [namesCount_iff]
      exact accepted_of_number? hmaxTokens
  · rintro ⟨⟨model, messages, hconversation⟩, hdouble, hcount⟩
    cases hresult : ofSection? s with
    | ok r => exact ⟨r, rfl⟩
    | error fault =>
      exfalso
      cases refused_of_error hconversation hresult with
      | temperature v hentry hset h =>
        rcases hdouble with hunset | hnames
        · exact hset hunset
        · exact h hnames
      | maxTokens v hentry hset h =>
        rcases hcount with hunset | ⟨n, hnames⟩
        · exact hset hunset
        · exact h n hnames

/-- **What becomes of the settings of a conversation.** An accepted temperature is left out, sent
as a finite number, or sent as null, the last if it is text that spells no finite double; an
accepted count is left out or sent. What names no number is refused, and there is no request. -/
theorem ofSection?_settings (s : Section)
    (hheld : ∀ n, s.find? "temperature" = some (.num n) → n.Held) :
    ((∃ r, ofSection? s = .ok r) ↔
      (∃ model messages, Conversation s model messages) ∧
        (Unset s "temperature" ∨ NamesDouble s) ∧
          (Unset s "maxTokens" ∨ ∃ n, NamesCount s n)) ∧
    (∀ r, ofSection? s = .ok r → TemperatureSent s (r.toJson.field? "temperature") ∧
      CountSent s (r.toJson.field? "max_tokens")) ∧
    ∀ fault, ofSection? s = .error fault →
      (∀ model messages, Conversation s model messages → Refused s fault) ∧
      ∀ (a : Action) (d : Datasource) (i : Invocation),
        a.formData.find? "chat" = some (.obj s) → build .chat a d i = .error fault.failure := by
  refine ⟨accepted_iff, fun r hr => ⟨temperature_sent hheld hr, count_sent hr⟩,
    fun fault hfault => ⟨?_, ?_⟩⟩
  · intro model messages hconversation
    exact refused_of_error hconversation hfault
  · intro a d i hsection
    unfold build
    dsimp only
    rw [readSection_of_error hsection hfault]
    rfl

end ChatRequest

/-- One turn with a temperature, as a binding may have inserted it. -/
def heated (temperature : String) : Section :=
  [("messages", .arr [.obj [("content", .str "x"), ("role", .str "user")]]), ("model", .str "m"),
    ("temperature", .str temperature)]

/-- The request that is read of a heated turn. -/
def heatedRequest (temperature : Binary64) : ChatRequest :=
  { model := "m", messages := [⟨"user", .str "x"⟩], temperature := some temperature }

/-- Infinity stands for a number with too many places. -/
theorem ChatRequest.ofSection?_settings_large :
    (∀ n, (heated " 1e400 ").find? "temperature" = some (.num n) → n.Held) ∧
      TemperatureSent (heated " 1e400 ")
        ((heatedRequest ⟨0x7FF0000000000000⟩).toJson.field? "temperature") ∧
      (heatedRequest ⟨0x7FF0000000000000⟩).toJson.field? "temperature" = some .null := by
  have hheld : ∀ n, (heated " 1e400 ").find? "temperature" = some (.num n) → n.Held := by
    rintro n ⟨⟩
  have hread : ofSection? (heated " 1e400 ") = .ok (heatedRequest ⟨0x7FF0000000000000⟩) :=
    except_eq_ok_of_toOption (by decide +kernel)
  exact ⟨hheld, ((ofSection?_settings _ hheld).2.1 _ hread).1, by decide⟩

/-- Not every temperature that is sent is a finite number: for a text that says it is none, null
is sent. -/
theorem ChatRequest.temperature_not_finite :
    ¬∀ (s : Section) (r : ChatRequest), ofSection? s = .ok r →
      ∀ v, r.toJson.field? "temperature" = some v → ∃ x, v = .num (.real x) ∧ x.isFinite = true := by
  intro h
  have hread : ofSection? (heated "nan") = .ok (heatedRequest ⟨0x7FF8000000000000⟩) :=
    except_eq_ok_of_toOption (by decide +kernel)
  obtain ⟨x, hx, -⟩ := h _ _ hread .null (by decide)
  cases hx

end OpenAi

end Relay
