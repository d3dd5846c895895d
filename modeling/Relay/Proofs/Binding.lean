/-
# Resolving an action

Resolving an action is one pass over the expressions of its placeholders in the order of
visits: each must have a value, and the first that has none ends it. What is noted on the
way are the expressions in the order of first occurrence, each once and with its value.
The action that is left has its texts filled, and if no value that was inserted opens a
placeholder, there is nothing left to resolve.

Key definitions: `Action.Noted`.
Key theorems: `resolve_eq`, `mem_bindingKeys`, `noteAll_eq_error_iff`, `resolve_spec`,
`resolve_resolved`.
-/
import Relay.Proofs.Template
import Relay.Proofs.Visit

namespace Relay

/-! ### Lists without repetitions -/

/-- Dropping all but first occurrences leaves each element once. -/
theorem nodup_eraseDups : ∀ xs : List String, xs.eraseDups.Nodup
  | [] => by simp
  | x :: xs => by
    rw [List.eraseDups_cons, List.nodup_cons]
    refine ⟨fun h => ?_, nodup_eraseDups (xs.filter fun y => !y == x)⟩
    rw [List.mem_eraseDups, List.mem_filter] at h
    simp at h
termination_by xs => xs.length
decreasing_by exact Nat.lt_succ_of_le (List.length_filter_le _ _)

theorem eraseDups_concat_of_mem {xs : List String} {x : String} (h : x ∈ xs) :
    (xs ++ [x]).eraseDups = xs.eraseDups := by
  have hx : [x].removeAll xs = [] := by simp [List.removeAll, h]
  rw [List.eraseDups_append, hx, List.eraseDups_nil, List.append_nil]

theorem eraseDups_concat_of_not_mem {xs : List String} {x : String} (h : x ∉ xs) :
    (xs ++ [x]).eraseDups = xs.eraseDups ++ [x] := by
  have hx : [x].removeAll xs = [x] := by simp [List.removeAll, h]
  rw [List.eraseDups_append, hx]
  rfl

theorem TextSet.mem_union (s t : TextSet) (x : String) : x ∈ union s t ↔ x ∈ s ∨ x ∈ t := by
  induction t generalizing s with
  | nil => simp [union]
  | cons y ys ih =>
    have hstep : union s (y :: ys) = union (insert s y) ys := rfl
    rw [hstep, ih, mem_insert, List.mem_cons, or_assoc, or_left_comm]

namespace Action

variable {values : Table Json}

/-! ### Noting values -/

/-- What is noted after the expressions `seen`: each once, in the order of first
occurrence, with its value. -/
structure Noted (values : Table Json) (seen : List String) (inserted : List Inserted) : Prop where
  expressions : inserted.map Inserted.expression = seen.eraseDups
  bound : ∀ i ∈ inserted, values.find? i.expression = some i.value

theorem Noted.nil : Noted values [] [] := ⟨rfl, by simp⟩

theorem Noted.mem_iff {seen : List String} {inserted : List Inserted}
    (h : Noted values seen inserted) (e : String) :
    e ∈ inserted.map Inserted.expression ↔ e ∈ seen := by
  rw [h.expressions, List.mem_eraseDups]

/-- One more expression is noted if it was not seen before. -/
theorem Noted.note {seen : List String} {inserted : List Inserted} {e : String} {value : Json}
    (h : Noted values seen inserted) (hv : values.find? e = some value) :
    Noted values (seen ++ [e]) (note inserted e value) := by
  have hany : (inserted.any fun i => i.expression == e) = true ↔ e ∈ seen := by
    rw [← h.mem_iff e, List.any_eq_true, List.mem_map]
    simp only [beq_iff_eq]
  by_cases hmem : e ∈ seen
  · rw [Action.note, if_pos (hany.mpr hmem)]
    exact ⟨by rw [h.expressions, eraseDups_concat_of_mem hmem], h.bound⟩
  · rw [Action.note, if_neg fun hn => hmem (hany.mp hn)]
    refine ⟨?_, fun i hi => ?_⟩
    · rw [List.map_append, h.expressions, eraseDups_concat_of_not_mem hmem]
      rfl
    · rcases List.mem_append.mp hi with hi | hi
      · exact h.bound i hi
      · rw [List.mem_singleton.mp hi]
        exact hv

theorem Noted.noteAll : ∀ {es seen : List String} {inserted noted : List Inserted},
    Noted values seen inserted → noteAll values inserted es = .ok noted →
    Noted values (seen ++ es) noted
  | [], seen, _, _, h, hok => by
    cases hok
    rwa [List.append_nil]
  | e :: es, seen, inserted, noted, h, hok => by
    rw [Action.noteAll] at hok
    split at hok
    · cases hok
    · rename_i value hv
      have := (h.note hv).noteAll hok
      rwa [List.append_assoc] at this

/-- The first expression without a value is the one that is named. -/
theorem noteAll_eq_error_iff (m : MissingValue) : ∀ (es : List String) (inserted : List Inserted),
    noteAll values inserted es = .error m ↔
      es.find? (fun e => !values.contains e) = some m.expression
  | [], _ => by simp [noteAll]
  | e :: es, inserted => by
    rw [noteAll, List.find?_cons, Table.contains]
    cases hv : values.find? e with
    | none =>
      simp only [Option.isSome_none, Bool.not_false, Except.error.injEq, Option.some.injEq]
      constructor
      · rintro rfl
        rfl
      · rintro rfl
        rfl
    | some value =>
      simp only [Option.isSome_some, Bool.not_true]
      exact noteAll_eq_error_iff m es _

theorem exists_noteAll_eq_ok_iff (es : List String) (inserted : List Inserted) :
    (∃ noted, noteAll values inserted es = .ok noted) ↔
      ∀ e ∈ es, values.contains e = true := by
  have herror : ∀ m, noteAll values inserted es = .error m ↔
      es.find? (fun e => !values.contains e) = some m.expression :=
    fun m => noteAll_eq_error_iff m es inserted
  constructor
  · rintro ⟨noted, hok⟩ e he
    cases hfind : es.find? fun e => !values.contains e with
    | none => simpa using List.find?_eq_none.mp hfind e he
    | some e' =>
      rw [(herror ⟨e'⟩).mpr hfind] at hok
      cases hok
  · intro h
    cases hnote : noteAll values inserted es with
    | ok noted => exact ⟨noted, rfl⟩
    | error m =>
      have hfind := (herror m).mp hnote
      have hmissing := List.find?_some hfind
      rw [h _ (List.mem_of_find?_eq_some hfind)] at hmissing
      cases hmissing

theorem noteAll_append : ∀ (es es' : List String) (inserted : List Inserted),
    noteAll values inserted (es ++ es') =
      (noteAll values inserted es).bind fun noted => noteAll values noted es'
  | [], _, _ => rfl
  | e :: es, es', inserted => by
    rw [List.cons_append, noteAll, noteAll]
    cases values.find? e with
    | none => rfl
    | some value => exact noteAll_append es es' _

/-! ### The visit -/

/-- Notes the values of the expressions of one text. -/
def noteText (values : Table Json) (text : String) : Resolving Unit := fun inserted =>
  (noteAll values inserted (Template.holes text)).map fun noted => ((), noted)

theorem substitute_eq_rewrite (values : Table Json) :
    substitute values = rewrite (noteText values) (Template.filled (boundText values)) := by
  funext text inserted
  show (noteAll values inserted (Template.holes text)).bind _ = Except.bind (Except.map _ _) _
  cases noteAll values inserted (Template.holes text) with
  | error m => rfl
  | ok noted =>
    show (if Template.hasHoles text then _ else _) = _
    by_cases hholes : Template.holes text = []
    · have hplain : Template.filled (boundText values) text = text :=
        Template.filled_of_holes_eq_nil hholes
      rw [Template.hasHoles, hholes]
      show Except.ok (text, noted) = Except.ok (_, noted)
      rw [hplain]
    · have hhas : Template.hasHoles text = true := by
        rw [Template.hasHoles, Bool.not_eq_true', List.isEmpty_eq_false_iff]
        exact hholes
      rw [if_pos hhas]
      rfl

theorem forM_noteText : ∀ (texts : List String) (inserted : List Inserted),
    (forM texts (noteText values) : Resolving Unit) inserted =
      (noteAll values inserted (texts.flatMap Template.holes)).map fun noted => ((), noted)
  | [], _ => rfl
  | text :: texts, inserted => by
    rw [List.forM_cons, List.flatMap_cons, noteAll_append]
    show Except.bind (Except.map _ (noteAll values inserted (Template.holes text))) _ = _
    cases noteAll values inserted (Template.holes text) with
    | error m => rfl
    | ok noted => exact forM_noteText texts noted

/-- **Resolving is one pass over the expressions**, and the texts are filled. -/
theorem resolve_eq (a : Action) (values : Table Json) :
    a.resolve values = (noteAll values [] a.expressions).map fun noted =>
      ⟨a.mapTexts (Template.filled (boundText values)), noted⟩ := by
  rw [resolve, substitute_eq_rewrite, visit_rewrite]
  show Except.map _ (Except.bind ((forM a.texts (noteText values) : Resolving Unit) []) _) = _
  rw [forM_noteText, ← expressions]
  cases noteAll values [] a.expressions with
  | error m => rfl
  | ok noted => rfl

theorem resolve_eq_ok_iff {a : Action} {r : Resolved} :
    a.resolve values = .ok r ↔
      noteAll values [] a.expressions = .ok r.inserted ∧
        r.action = a.mapTexts (Template.filled (boundText values)) := by
  rw [resolve_eq]
  cases noteAll values [] a.expressions with
  | error m => simp [Except.map]
  | ok noted =>
    simp only [Except.map, Except.ok.injEq]
    constructor
    · rintro rfl
      exact ⟨rfl, rfl⟩
    · rintro ⟨rfl, haction⟩
      rw [← haction]

theorem resolve_eq_error_iff {a : Action} {m : MissingValue} :
    a.resolve values = .error m ↔ noteAll values [] a.expressions = .error m := by
  rw [resolve_eq]
  cases noteAll values [] a.expressions with
  | error m => simp [Except.map]
  | ok noted => simp [Except.map]

/-- What is inserted is what is noted for all expressions. -/
theorem noted_of_resolve {a : Action} {r : Resolved} (h : a.resolve values = .ok r) :
    Noted values a.expressions r.inserted :=
  Noted.nil.noteAll (resolve_eq_ok_iff.mp h).1

/-! ### The expressions of an action -/

theorem forM_union : ∀ (texts : List String) (keys : TextSet),
    (forM texts (fun text => modify fun keys => TextSet.union keys (Template.holes text)) :
      StateM TextSet Unit) keys = ((), TextSet.union keys (texts.flatMap Template.holes))
  | [], _ => rfl
  | text :: texts, keys => by
    rw [List.forM_cons, List.flatMap_cons, TextSet.union, List.foldl_append]
    exact forM_union texts (TextSet.union keys (Template.holes text))

/-- The same visit collects the expressions, as a set. -/
theorem bindingKeys_eq (a : Action) : a.bindingKeys = TextSet.ofList a.expressions := by
  have hcollect : collect = rewrite
      (fun text => modify fun keys => TextSet.union keys (Template.holes text)) id := rfl
  rw [bindingKeys, hcollect, visit_rewrite]
  exact congrArg Prod.snd (forM_union a.texts [])

theorem mem_bindingKeys {a : Action} {e : String} : e ∈ a.bindingKeys ↔ e ∈ a.expressions := by
  rw [bindingKeys_eq]
  refine (TextSet.mem_union [] a.expressions e).trans ?_
  simp

/-! ### Main results -/

/-- **Resolving checks, names and notes what the action refers to.** It succeeds if and
only if every expression of the action has a value. Where it fails it names the first
expression in the order of visits that has none. Where it succeeds, what is inserted are
the expressions of the action in the order of first occurrence, each exactly once and
with its value, and nothing else. -/
theorem resolve_spec (a : Action) (values : Table Json) :
    ((∃ r, a.resolve values = .ok r) ↔ ∀ e ∈ a.bindingKeys, values.contains e = true) ∧
    (∀ m, a.resolve values = .error m ↔
      a.expressions.find? (fun e => !values.contains e) = some m.expression) ∧
    (∀ r, a.resolve values = .ok r →
      r.inserted.map Inserted.expression = a.expressions.eraseDups ∧
      (r.inserted.map Inserted.expression).Nodup ∧
      (∀ e, e ∈ r.inserted.map Inserted.expression ↔ e ∈ a.bindingKeys) ∧
      ∀ i ∈ r.inserted, values.find? i.expression = some i.value) := by
  refine ⟨?_, fun m => ?_, fun r hr => ?_⟩
  · simp only [mem_bindingKeys]
    rw [← exists_noteAll_eq_ok_iff a.expressions []]
    constructor
    · rintro ⟨r, hr⟩
      exact ⟨r.inserted, (resolve_eq_ok_iff.mp hr).1⟩
    · rintro ⟨noted, hnoted⟩
      exact ⟨⟨_, noted⟩, resolve_eq_ok_iff.mpr ⟨hnoted, rfl⟩⟩
  · rw [resolve_eq_error_iff, noteAll_eq_error_iff]
  · have hnoted := noted_of_resolve hr
    refine ⟨hnoted.expressions, ?_, fun e => ?_, hnoted.bound⟩
    · rw [hnoted.expressions]
      exact nodup_eraseDups a.expressions
    · rw [hnoted.mem_iff, mem_bindingKeys]

/-- Path and body refer to one expression, which is noted once and first. -/
theorem resolve_spec_repeated :
    ({ path := some "/{{b}}/{{ a }}", body := some "{{b}}",
       formData := [("q", .arr [.str "{{c}}{{a}}"])] } : Action).resolve
        [("a", .ofNat 1), ("b", .bool true), ("c", .str "x")] =
      .ok ⟨{ path := some "/true/1", body := some "true", formData := [("q", .arr [.str "x1"])] },
        [⟨"b", .bool true⟩, ⟨"a", .ofNat 1⟩, ⟨"c", .str "x"⟩]⟩ ∧
    ["b", "a", "c"] =
      ({ path := some "/{{b}}/{{ a }}", body := some "{{b}}",
         formData := [("q", .arr [.str "{{c}}{{a}}"])] } : Action).expressions.eraseDups := by
  have h :
      ({ path := some "/{{b}}/{{ a }}", body := some "{{b}}",
         formData := [("q", .arr [.str "{{c}}{{a}}"])] } : Action).resolve
        [("a", .ofNat 1), ("b", .bool true), ("c", .str "x")] =
      .ok ⟨{ path := some "/true/1", body := some "true", formData := [("q", .arr [.str "x1"])] },
        [⟨"b", .bool true⟩, ⟨"a", .ofNat 1⟩, ⟨"c", .str "x"⟩]⟩ := by
    have hexpressions :
        ({ path := some "/{{b}}/{{ a }}", body := some "{{b}}",
           formData := [("q", .arr [.str "{{c}}{{a}}"])] } : Action).expressions =
          ["b", "a", "b", "c", "a"] := by cbv
    rw [resolve_eq_ok_iff, hexpressions]
    exact ⟨rfl, by cbv⟩
  exact ⟨h, ((resolve_spec _ _).2.2 _ h).1⟩

/-- An action without placeholders resolves to itself. -/
theorem resolve_of_expressions_eq_nil {a : Action} (h : a.expressions = [])
    (values : Table Json) : a.resolve values = .ok ⟨a, []⟩ := by
  rw [resolve_eq_ok_iff, h]
  refine ⟨rfl, (mapTexts_eq_self fun text htext => ?_).symm⟩
  exact Template.filled_of_holes_eq_nil (List.flatMap_eq_nil_iff.mp h text htext)

/-- Filled with inert values, an action refers to nothing any more. -/
theorem expressions_of_resolve {a : Action} {r : Resolved} (h : a.resolve values = .ok r)
    (hinert : ∀ i ∈ r.inserted, Template.Inert i.value.bound.toList) :
    r.action.expressions = [] := by
  have hnoted := noted_of_resolve h
  rw [(resolve_eq_ok_iff.mp h).2, expressions, texts_mapTexts, List.flatMap_map,
    List.flatMap_eq_nil_iff]
  intro text htext
  refine Template.holes_filled _ _ fun e he => ?_
  have hmem : e ∈ a.expressions := List.mem_flatMap.mpr ⟨text, htext, he⟩
  obtain ⟨i, hi, rfl⟩ := List.mem_map.mp ((hnoted.mem_iff e).mpr hmem)
  rw [boundText, hnoted.bound i hi]
  exact hinert i hi

/-- **Resolving leaves nothing to resolve.** If no inserted text holds a pair of opening
braces or ends in an opening brace, the resolved action refers to no expression, and
resolving it again with any values succeeds, changes nothing and inserts nothing. -/
theorem resolve_resolved {a : Action} {r : Resolved} (h : a.resolve values = .ok r)
    (hinert : ∀ i ∈ r.inserted,
      ¬ ['{', '{'] <:+: i.value.bound.toList ∧ ¬ ['{'] <:+ i.value.bound.toList) :
    r.action.bindingKeys = [] ∧ ∀ w, r.action.resolve w = .ok ⟨r.action, []⟩ := by
  have hnil := expressions_of_resolve h hinert
  refine ⟨?_, resolve_of_expressions_eq_nil hnil⟩
  rw [bindingKeys_eq, hnil]
  rfl

/-- The value has single braces, and an unclosed pair stands behind it. -/
theorem resolve_resolved_unclosed :
    ({ path := some "{{a}}\x7b\x7b" } : Action).resolve [("a", .str "{x}")] =
      .ok ⟨{ path := some "{x}\x7b\x7b" }, [⟨"a", .str "{x}"⟩]⟩ ∧
    ({ path := some "{x}\x7b\x7b" } : Action).bindingKeys = [] ∧
    ({ path := some "{x}\x7b\x7b" } : Action).resolve [("a", .null)] =
      .ok ⟨{ path := some "{x}\x7b\x7b" }, []⟩ := by
  have h : ({ path := some "{{a}}\x7b\x7b" } : Action).resolve [("a", .str "{x}")] =
      .ok ⟨{ path := some "{x}\x7b\x7b" }, [⟨"a", .str "{x}"⟩]⟩ := by
    have hexpressions :
        ({ path := some "{{a}}\x7b\x7b" } : Action).expressions = ["a"] := by cbv
    rw [resolve_eq_ok_iff, hexpressions]
    exact ⟨rfl, by cbv⟩
  have hinert : ∀ i ∈ [(⟨"a", .str "{x}"⟩ : Inserted)],
      ¬ ['{', '{'] <:+: i.value.bound.toList ∧ ¬ ['{'] <:+ i.value.bound.toList := by
    intro i hi
    rw [List.mem_singleton.mp hi]
    decide
  have hresolved := resolve_resolved h hinert
  exact ⟨h, hresolved.1, hresolved.2 [("a", .null)]⟩

end Action

end Relay
