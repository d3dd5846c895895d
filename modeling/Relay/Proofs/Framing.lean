/-
# What resolving keeps, and what it looks at

Resolving puts other texts in the place of texts and does nothing else: the action it leaves
has the form of the one it was given, down to the numbers and the names of entries in the
form data, and of each text the literal stretches stand as they stood. Of the values it
looks only at those that the action refers to: a visit is the same if the same is done with
each text, and with a text the same is done if its own expressions have the same values. So
two tables that agree on these lead to the same end, whether that is an action or a missing
expression.

Key definitions: `Json.Alike`, `Action.Alike`, `Template.Refilled`.
Key theorems: `Action.alike_mapTexts`, `substitute_congr`, `resolve_keeps_form`,
`resolve_depends_on_named`.
-/
import Mathlib.Data.List.Forall2
import Relay.Proofs.Substitution

namespace Relay

/-! ### Values and actions of one form -/

/-- The values have one form, and texts that stand in the same place are related. -/
inductive Json.Alike (R : String → String → Prop) : Json → Json → Prop
  | null : Json.Alike R .null .null
  | bool (b : Bool) : Json.Alike R (.bool b) (.bool b)
  | num (n : Json.Number) : Json.Alike R (.num n) (.num n)
  | str {s t : String} (h : R s t) : Json.Alike R (.str s) (.str t)
  | arr {xs ys : List Json} (h : List.Forall₂ (Json.Alike R) xs ys) :
    Json.Alike R (.arr xs) (.arr ys)
  | obj {xs ys : List (String × Json)} (names : ys.map Prod.fst = xs.map Prod.fst)
    (values : List.Forall₂ (Json.Alike R) (xs.map Prod.snd) (ys.map Prod.snd)) :
    Json.Alike R (.obj xs) (.obj ys)

def Property.Alike (R : String → String → Prop) (p q : Property) : Prop :=
  R p.key q.key ∧ R p.value q.value

/-- The actions have one form, and texts that stand in the same place are related. Nothing
but texts may differ. -/
structure Action.Alike (R : String → String → Prop) (a b : Action) : Prop where
  method : b.method = a.method
  encodeQuery : b.encodeQuery = a.encodeQuery
  timeout : b.timeout = a.timeout
  paging : b.paging = a.paging
  selfReferences : b.selfReferences = a.selfReferences
  path : Option.Rel R a.path b.path
  body : Option.Rel R a.body b.body
  next : Option.Rel R a.next b.next
  prev : Option.Rel R a.prev b.prev
  headers : List.Forall₂ (Property.Alike R) a.headers b.headers
  autoHeaders : List.Forall₂ (Property.Alike R) a.autoHeaders b.autoHeaders
  query : List.Forall₂ (Property.Alike R) a.query b.query
  form : List.Forall₂ (Property.Alike R) a.form b.form
  templates : List.Forall₂ (Property.Alike R) a.templates b.templates
  formData : Json.Alike R (.obj a.formData) (.obj b.formData)

section

variable {R : String → String → Prop} {g : String → String}

namespace Json

mutual

theorem alike_mapTexts (h : ∀ t, R t (g t)) : ∀ j : Json, Alike R j (j.mapTexts g)
  | .null => .null
  | .bool b => .bool b
  | .num n => .num n
  | .str s => .str (h s)
  | .arr items => .arr (alike_mapItems h items)
  | .obj fields => .obj (names_mapFields fields) (alike_mapFields h fields)

theorem alike_mapItems (h : ∀ t, R t (g t)) : ∀ items : List Json,
    List.Forall₂ (Alike R) items (mapItems g items)
  | [] => .nil
  | x :: xs => .cons (alike_mapTexts h x) (alike_mapItems h xs)

theorem alike_mapFields (h : ∀ t, R t (g t)) : ∀ fields : List (String × Json),
    List.Forall₂ (Alike R) (fields.map Prod.snd) ((mapFields g fields).map Prod.snd)
  | [] => .nil
  | (_, x) :: xs => .cons (alike_mapTexts h x) (alike_mapFields h xs)

theorem names_mapFields : ∀ fields : List (String × Json),
    (mapFields g fields).map Prod.fst = fields.map Prod.fst
  | [] => rfl
  | (k, _) :: xs => congrArg (k :: ·) (names_mapFields xs)

end

end Json

namespace Action

theorem optionRel_map (h : ∀ t, R t (g t)) (text : Option String) :
    Option.Rel R text (text.map g) := by
  cases text with
  | none => exact .none
  | some t => exact .some (h t)

theorem propertiesAlike_map (h : ∀ t, R t (g t)) (ps : List Property) :
    List.Forall₂ (Property.Alike R) ps (ps.map (Property.mapTexts g)) := by
  rw [List.forall₂_map_right_iff, List.forall₂_same]
  intro p _
  exact ⟨h p.key, h p.value⟩

/-- An action whose texts were mapped has the form it had. -/
theorem alike_mapTexts (h : ∀ t, R t (g t)) (a : Action) : Alike R a (a.mapTexts g) where
  method := rfl
  encodeQuery := rfl
  timeout := rfl
  paging := rfl
  selfReferences := rfl
  path := optionRel_map h a.path
  body := optionRel_map h a.body
  next := optionRel_map h a.next
  prev := optionRel_map h a.prev
  headers := propertiesAlike_map h a.headers
  autoHeaders := propertiesAlike_map h a.autoHeaders
  query := propertiesAlike_map h a.query
  form := propertiesAlike_map h a.form
  templates := propertiesAlike_map h a.templates
  formData := Json.alike_mapTexts h (.obj a.formData)

end Action

end

/-! ### Texts -/

namespace Template

/-- One text comes of another by filling: its literal stretches stand as they stood, and
without placeholders all of it does. -/
structure Refilled (value : String → String) (text out : String) : Prop where
  literal : ∃ ps, Cut text.toList ps ∧ out = String.ofList (fill value ps)
  plain : Plain text.toList → out = text

theorem holes_eq_nil_iff {text : String} : holes text = [] ↔ Plain text.toList :=
  ⟨fun h => pieces_eq_text_iff_plain.mp (pieces_of_holes_eq_nil h), holes_of_plain⟩

theorem refilled_filled (value : String → String) (text : String) :
    Refilled value text (filled value text) where
  literal := ⟨pieces text.toList, cut_pieces _, rfl⟩
  plain h := filled_of_holes_eq_nil (holes_of_plain h)

end Template

namespace Action

/-- Nothing is referred to exactly if no text has a placeholder. -/
theorem expressions_eq_nil_iff {a : Action} :
    a.expressions = [] ↔ ∀ t ∈ a.texts, Template.Plain t.toList := by
  rw [expressions, List.flatMap_eq_nil_iff]
  simp only [Template.holes_eq_nil_iff]

theorem bindingKeys_eq_nil_iff {a : Action} : a.bindingKeys = [] ↔ a.expressions = [] := by
  simp only [List.eq_nil_iff_forall_not_mem, mem_bindingKeys]

/-- **Resolving changes nothing but placeholders.** The action that it leaves has the form of
the one it was given: method, encoding, timeout, paging and self-references are the same, an
optional text is there exactly if it was, each list of properties has its length and order,
and the form data has its names, lengths, numbers, truth values and nulls at every depth.
Each text has its literal stretches, and is the same if it had no placeholder. An action
refers to nothing exactly if no text of it has a placeholder, and then it resolves to itself
with nothing inserted. -/
theorem resolve_keeps_form (a : Action) (values : Table Json) :
    (∀ r, a.resolve values = .ok r →
      Alike (Template.Refilled (boundText values)) a r.action) ∧
    (a.bindingKeys = [] ↔ ∀ t ∈ a.texts, Template.Plain t.toList) ∧
    (a.bindingKeys = [] → a.resolve values = .ok ⟨a, []⟩) := by
  refine ⟨fun r hr => ?_, ?_, fun hkeys => ?_⟩
  · rw [(resolve_eq_ok_iff.mp hr).2]
    exact alike_mapTexts (Template.refilled_filled (boundText values)) a
  · rw [bindingKeys_eq_nil_iff, expressions_eq_nil_iff]
  · exact resolve_of_expressions_eq_nil (bindingKeys_eq_nil_iff.mp hkeys) values

/-- One expression, in the path and in the depth of the form data, where a name looks like a
placeholder and is none. -/
def mixed : Action :=
  { path := some "/{{b}}"
    headers := [⟨"Accept", "text/plain"⟩]
    formData := [("q", .arr [.str "{{ b }}", .null, .obj [("{{c}}", .bool true)]])] }

/-- The same with a value in the place of the expression. -/
def mixedFilled : Action :=
  { mixed with
    path := some "/x"
    formData := [("q", .arr [.str "x", .null, .obj [("{{c}}", .bool true)]])] }

theorem expressions_mixed : mixed.expressions = ["b", "b"] := by cbv

theorem resolve_mixed :
    mixed.resolve [("b", .str "x")] = .ok ⟨mixedFilled, [⟨"b", .str "x"⟩]⟩ := by
  rw [resolve_eq_ok_iff, expressions_mixed]
  exact ⟨rfl, by cbv⟩

/-- Pairs of braces in the wrong order are no placeholder. -/
theorem resolve_keeps_form_mixed :
    Alike (Template.Refilled (boundText [("b", .str "x")])) mixed mixedFilled ∧
    ({ body := some "\x7d\x7d, \x7b\x7b" } : Action).resolve [(",", .null)] =
      .ok ⟨{ body := some "\x7d\x7d, \x7b\x7b" }, []⟩ := by
  refine ⟨(resolve_keeps_form mixed _).1 _ resolve_mixed, ?_⟩
  have hkeys : ({ body := some "\x7d\x7d, \x7b\x7b" } : Action).bindingKeys = [] := by
    rw [bindingKeys_eq_nil_iff]
    cbv
  exact (resolve_keeps_form _ _).2.2 hkeys

/-! ### Values that are not referred to -/

section

variable {v w : Table Json}

theorem noteAll_congr : ∀ {es : List String} (inserted : List Inserted),
    (∀ e ∈ es, v.find? e = w.find? e) → noteAll v inserted es = noteAll w inserted es
  | [], _, _ => rfl
  | e :: es, inserted, h => by
    have hes : ∀ e' ∈ es, v.find? e' = w.find? e' := fun e' he => h e' (List.mem_cons_of_mem e he)
    rw [noteAll, noteAll, h e List.mem_cons_self]
    cases w.find? e with
    | none => rfl
    | some value => exact noteAll_congr (note inserted e value) hes

/-- What is done with a text depends on the values of its own expressions. -/
theorem substitute_congr {text : String}
    (h : ∀ e ∈ Template.holes text, v.find? e = w.find? e) :
    substitute v text = substitute w text := by
  have hnote : noteText v text = noteText w text := by
    funext inserted
    rw [noteText, noteText, noteAll_congr inserted h]
  have hfilled : Template.filled (boundText v) text = Template.filled (boundText w) text := by
    refine Template.filled_congr fun e he => ?_
    rw [boundText, boundText, h e he]
  rw [substitute_eq_rewrite, substitute_eq_rewrite, rewrite, rewrite, hnote, hfilled]

/-- Tables that agree on what an action refers to do the same with it. -/
theorem resolve_congr {a : Action} (h : ∀ e ∈ a.expressions, v.find? e = w.find? e) :
    a.resolve v = a.resolve w := by
  have hvisit : a.visit (substitute v) = a.visit (substitute w) := by
    refine visit_congr fun t ht => substitute_congr fun e he => ?_
    exact h e (List.mem_flatMap.mpr ⟨t, ht, he⟩)
  rw [resolve, resolve, hvisit]

end

/-- **Resolving depends on the values that are named, and on no others.** If two tables have
the same values for all expressions that the action refers to, or lack the same of them, then
resolving comes to the same with both, the missing expression included. So what succeeds with
a table succeeds with each that has further entries, with the same action and the same
insertions. -/
theorem resolve_depends_on_named (a : Action) (v w : Table Json) :
    ((∀ e ∈ a.bindingKeys, v.find? e = w.find? e) → a.resolve v = a.resolve w) ∧
    ∀ r, a.resolve v = .ok r → (∀ e x, v.find? e = some x → w.find? e = some x) →
      a.resolve w = .ok r := by
  refine ⟨fun h => resolve_congr fun e he => h e (mem_bindingKeys.mpr he), fun r hr hmore => ?_⟩
  have hvalues : ∀ e ∈ a.expressions, v.contains e = true :=
    (exists_noteAll_eq_ok_iff a.expressions []).mp ⟨r.inserted, (resolve_eq_ok_iff.mp hr).1⟩
  rw [← hr]
  refine (resolve_congr fun e he => ?_).symm
  obtain ⟨x, hx⟩ := Option.isSome_iff_exists.mp (hvalues e he)
  rw [hx, hmore e x hx]

/-- The tables share the value that is named, and in two others it is missing. -/
theorem resolve_depends_on_named_mixed :
    mixed.resolve [("b", .str "x")] = mixed.resolve [("a", .null), ("b", .str "x")] ∧
    mixed.resolve [("c", .bool true)] = mixed.resolve [("d", .null)] := by
  have hkeys : ∀ e ∈ mixed.bindingKeys, e = "b" := by
    intro e he
    rw [mem_bindingKeys, expressions_mixed] at he
    simpa using he
  have hmore : ∀ e x, Table.find? [("b", Json.str "x")] e = some x →
      Table.find? [("a", .null), ("b", .str "x")] e = some x := by
    intro e x he
    simp only [Table.find?, Option.ite_none_right_eq_some] at he
    obtain ⟨rfl, hx⟩ := he
    rw [← hx]
    rfl
  constructor
  · rw [resolve_mixed, (resolve_depends_on_named mixed _ _).2 _ resolve_mixed hmore]
  · refine (resolve_depends_on_named mixed _ _).1 fun e he => ?_
    rw [hkeys e he]
    rfl

end Action

end Relay
