/-
# Messages as text

A binding inserts text, so the messages of a conversation stand in a form as an array or as the
text of one. There is one reader of messages, which goes over a document: that of the value, or
the one that the text holds. The text of a value whose numbers are whole holds the document of the
value itself, unless it is nested too deep for a document. So both forms have the same outcome,
the request or the fault.

Key definitions: `Json.depth`, `Json.whole`, `ChatRequest.readMessages`.
Key theorems: `fits_of_whole`, `ofSection?_congr`, `ofSection?_bound`.
-/
import Relay.Proofs.JsonText
import Relay.Proofs.Except
import Relay.Connector.OpenAi.Form

namespace Relay

namespace Json

/-! ### Values without doubles -/

/-- A whole number that a 64-bit word holds, signed or unsigned. -/
def Number.whole : Number → Bool
  | .int n => decide (-(Int.pow 2 63) ≤ n) && decide (n < Int.pow 2 64)
  | .real _ => false

theorem Number.readsBack_of_whole {n : Number} (h : n.whole = true) : n.readsBack = true := by
  cases n with
  | int n =>
    rw [whole, Bool.and_eq_true, decide_eq_true_iff, decide_eq_true_iff] at h
    exact readsBack_int h.1 h.2
  | real x => cases h

mutual

/-- Every number in the value is whole. -/
def whole : Json → Bool
  | .num n => n.whole
  | .arr items => itemsWhole items
  | .obj fields => fieldsWhole fields
  | _ => true

def itemsWhole : List Json → Bool
  | [] => true
  | x :: xs => whole x && itemsWhole xs

def fieldsWhole : List (String × Json) → Bool
  | [] => true
  | (_, x) :: xs => whole x && fieldsWhole xs

end

mutual

/-- How many arrays and objects are nested in each other. -/
def depth : Json → Nat
  | .arr items => itemsDepth items + 1
  | .obj fields => fieldsDepth fields + 1
  | _ => 0

def itemsDepth : List Json → Nat
  | [] => 0
  | x :: xs => max (depth x) (itemsDepth xs)

def fieldsDepth : List (String × Json) → Nat
  | [] => 0
  | (_, x) :: xs => max (depth x) (fieldsDepth xs)

end

mutual

/-- **What has only whole numbers fits where there is room for its depth.** -/
theorem fits_of_whole : ∀ (j : Json) {room : Nat}, j.whole = true → j.depth ≤ room →
    j.fits room = true
  | .null, _, _, _ => rfl
  | .bool _, _, _, _ => rfl
  | .str _, _, _, _ => rfl
  | .num _, _, hwhole, _ => Number.readsBack_of_whole hwhole
  | .arr items, room, hwhole, hdepth => by
    rw [depth] at hdepth
    have hroom : 0 < room := Nat.lt_of_lt_of_le (Nat.succ_pos _) hdepth
    rw [fits, itemsFit_of_whole items hwhole (Nat.le_sub_one_of_lt hdepth), Bool.and_true]
    exact decide_eq_true hroom
  | .obj fields, room, hwhole, hdepth => by
    rw [depth] at hdepth
    have hroom : 0 < room := Nat.lt_of_lt_of_le (Nat.succ_pos _) hdepth
    rw [fits, fieldsFit_of_whole fields hwhole (Nat.le_sub_one_of_lt hdepth), Bool.and_true]
    exact decide_eq_true hroom

theorem itemsFit_of_whole : ∀ (items : List Json) {room : Nat}, itemsWhole items = true →
    itemsDepth items ≤ room → itemsFit room items = true
  | [], _, _, _ => rfl
  | x :: xs, room, hwhole, hdepth => by
    rw [itemsWhole, Bool.and_eq_true] at hwhole
    obtain ⟨hfirst, hrest⟩ := Nat.max_le.mp hdepth
    rw [itemsFit, fits_of_whole x hwhole.1 hfirst, itemsFit_of_whole xs hwhole.2 hrest]
    rfl

theorem fieldsFit_of_whole : ∀ (fields : List (String × Json)) {room : Nat},
    fieldsWhole fields = true → fieldsDepth fields ≤ room → fieldsFit room fields = true
  | [], _, _, _ => rfl
  | (k, x) :: fields, room, hwhole, hdepth => by
    rw [fieldsWhole, Bool.and_eq_true] at hwhole
    obtain ⟨hfirst, hrest⟩ := Nat.max_le.mp hdepth
    rw [fieldsFit, fits_of_whole x hwhole.1 hfirst, fieldsFit_of_whole fields hwhole.2 hrest]
    rfl

end

/-- A value that is no text is bound as its text. -/
theorem bound_arr (items : List Json) : bound (.arr items) = print (.arr items) := rfl

end Json

namespace OpenAi.ChatRequest

/-! ### The reader of messages -/

/-- The messages that a document holds. -/
def readMessages (d : Option Draft) : Except FormFault (List ChatMessage) :=
  match d.bind (Draft.list? ChatMessage.ofDraft?) with
  | some messages => .ok messages
  | none => .error (.invalidMessages Json.malformed)

theorem messages?_str {s : Section} {text : String} (h : s.find? "messages" = some (.str text)) :
    messages? s = readMessages (Json.Read.document? text) := by
  rw [messages?, h]
  rfl

theorem messages?_arr {s : Section} {items : List Json}
    (h : s.find? "messages" = some (.arr items)) :
    messages? s = readMessages (some (Json.arr items).toDraft) := by
  rw [messages?, h]
  rfl

theorem number?_congr {α : Type} {s s' : Section} {field : String}
    (h : s.find? field = s'.find? field) (ofNumber : Json.Number → Option α)
    (ofText : String → Option α) :
    number? s field ofNumber ofText = number? s' field ofNumber ofText := by
  rw [number?, h, number?]

/-- Sections with the same messages and the same other settings have the same outcome. -/
theorem ofSection?_congr {s s' : Section} (hmessages : messages? s = messages? s')
    (hothers : ∀ name ∈ ["model", "temperature", "maxTokens"], s.find? name = s'.find? name) :
    ofSection? s = ofSection? s' := by
  have hmodel : model? s = model? s' := by
    rw [model?, trimmedText?, hothers "model" (by decide), model?, trimmedText?]
  rw [ofSection?, hmodel, hmessages, number?_congr (hothers "temperature" (by decide)),
    number?_congr (hothers "maxTokens" (by decide)), ofSection?]

/-- **Messages that are bound as text have the outcome of the messages themselves**: the same
request, or the same fault. -/
theorem ofSection?_bound {s : Section} {items : List Json}
    (hmessages : s.find? "messages" = some (.arr items))
    (hwhole : (Json.arr items).whole = true)
    (hdepth : (Json.arr items).depth ≤ Json.Read.maxDepth) :
    ofSection? (s.insert "messages" (.str (Json.arr items).bound)) = ofSection? s := by
  refine ofSection?_congr ?_ fun name hname => ?_
  · have hfits := Json.fits_of_whole (Json.arr items) hwhole hdepth
    rw [messages?_str (Table.find?_insert_self s "messages" _), messages?_arr hmessages,
      Json.bound_arr, Json.document?_print hfits]
  · refine Table.find?_insert_of_ne s _ ?_
    rintro rfl
    exact absurd hname (by decide)

/-- A turn with an entry that no reader asks for, and one that is an array of its parts. -/
def twoTurns : List Json :=
  [.obj [("content", .str "say \"hi\"\n\x01"), ("name", .num (.int 18446744073709551615)),
      ("role", .str "user")],
    .arr [.str "assistant", .arr [.obj [("type", .str "text")], .null]]]

theorem ofSection?_bound_twoTurns :
    ofSection? (Table.insert [("messages", .arr twoTurns), ("model", .str "m")] "messages"
          (.str (Json.arr twoTurns).bound)) =
        ofSection? [("messages", .arr twoTurns), ("model", .str "m")] ∧
      ofSection? [("messages", .arr twoTurns), ("model", .str "m")] = .ok
        { model := "m"
          messages := [⟨"user", .str "say \"hi\"\n\x01"⟩,
            ⟨"assistant", .arr [.obj [("type", .str "text")], .null]⟩] } :=
  ⟨ofSection?_bound rfl (by decide +kernel) (by decide), except_eq_ok_of_toOption (by decide +kernel)⟩

end OpenAi.ChatRequest

end Relay
