/-
# The texts of an action

A visit goes through the texts of an action in one order and puts another text in the
place of each. If what it does with a text is to take note of it and to leave a text that
depends on nothing else, then the whole visit takes note of all texts in order, and the
action it leaves is the one whose texts were mapped.

Key definitions: `Json.texts`, `Action.texts`, `Action.mapTexts`, `Action.expressions`.
Key theorems: `visit_rewrite`, `visit_congr`, `texts_mapTexts`, `mapTexts_eq_self`.
-/
import Relay.Action.Binding

namespace Relay

namespace Json

mutual

/-- The texts of a value in depth, left to right, without the names of entries. -/
def texts : Json → List String
  | .str s => [s]
  | .arr items => itemsTexts items
  | .obj fields => fieldsTexts fields
  | _ => []

def itemsTexts : List Json → List String
  | [] => []
  | x :: xs => texts x ++ itemsTexts xs

def fieldsTexts : List (String × Json) → List String
  | [] => []
  | (_, x) :: xs => texts x ++ fieldsTexts xs

end

mutual

/-- The value with another text in the place of each. -/
def mapTexts (g : String → String) : Json → Json
  | .str s => .str (g s)
  | .arr items => .arr (mapItems g items)
  | .obj fields => .obj (mapFields g fields)
  | j => j

def mapItems (g : String → String) : List Json → List Json
  | [] => []
  | x :: xs => mapTexts g x :: mapItems g xs

def mapFields (g : String → String) : List (String × Json) → List (String × Json)
  | [] => []
  | (k, x) :: xs => (k, mapTexts g x) :: mapFields g xs

end

mutual

theorem texts_mapTexts (g : String → String) : ∀ j : Json, (j.mapTexts g).texts = j.texts.map g
  | .str _ => rfl
  | .arr items => itemsTexts_mapItems g items
  | .obj fields => fieldsTexts_mapFields g fields
  | .null => rfl
  | .bool _ => rfl
  | .num _ => rfl

theorem itemsTexts_mapItems (g : String → String) : ∀ items : List Json,
    itemsTexts (mapItems g items) = (itemsTexts items).map g
  | [] => rfl
  | x :: xs => by
    simp only [mapItems, itemsTexts, List.map_append]
    rw [texts_mapTexts g x, itemsTexts_mapItems g xs]

theorem fieldsTexts_mapFields (g : String → String) : ∀ fields : List (String × Json),
    fieldsTexts (mapFields g fields) = (fieldsTexts fields).map g
  | [] => rfl
  | (_, x) :: xs => by
    simp only [mapFields, fieldsTexts, List.map_append]
    rw [texts_mapTexts g x, fieldsTexts_mapFields g xs]

end

mutual

/-- Only the texts are mapped. -/
theorem mapTexts_eq_self {g : String → String} : ∀ {j : Json}, (∀ t ∈ j.texts, g t = t) →
    j.mapTexts g = j
  | .str s, h => congrArg Json.str (h s List.mem_cons_self)
  | .arr _, h => congrArg Json.arr (mapItems_eq_self h)
  | .obj _, h => congrArg Json.obj (mapFields_eq_self h)
  | .null, _ => rfl
  | .bool _, _ => rfl
  | .num _, _ => rfl

theorem mapItems_eq_self {g : String → String} : ∀ {items : List Json},
    (∀ t ∈ itemsTexts items, g t = t) → mapItems g items = items
  | [], _ => rfl
  | x :: xs, h => by
    rw [mapItems, mapTexts_eq_self fun t ht => h t (List.mem_append_left _ ht),
      mapItems_eq_self fun t ht => h t (List.mem_append_right _ ht)]

theorem mapFields_eq_self {g : String → String} : ∀ {fields : List (String × Json)},
    (∀ t ∈ fieldsTexts fields, g t = t) → mapFields g fields = fields
  | [], _ => rfl
  | (_, x) :: xs, h => by
    rw [mapFields, mapTexts_eq_self fun t ht => h t (List.mem_append_left _ ht),
      mapFields_eq_self fun t ht => h t (List.mem_append_right _ ht)]

end

end Json

namespace Property

/-- The key stands before the value. -/
def texts (p : Property) : List String := [p.key, p.value]

def mapTexts (g : String → String) (p : Property) : Property := ⟨g p.key, g p.value⟩

end Property

namespace Action

/-- The texts of an action in the order of visits. -/
def texts (a : Action) : List String :=
  a.path.toList ++ a.body.toList ++ a.next.toList ++ a.prev.toList
    ++ a.headers.flatMap Property.texts ++ a.autoHeaders.flatMap Property.texts
    ++ a.query.flatMap Property.texts ++ a.form.flatMap Property.texts
    ++ a.templates.flatMap Property.texts ++ Json.fieldsTexts a.formData

/-- The action with another text in the place of each. -/
def mapTexts (g : String → String) (a : Action) : Action :=
  { a with
    path := a.path.map g
    body := a.body.map g
    next := a.next.map g
    prev := a.prev.map g
    headers := a.headers.map (Property.mapTexts g)
    autoHeaders := a.autoHeaders.map (Property.mapTexts g)
    query := a.query.map (Property.mapTexts g)
    form := a.form.map (Property.mapTexts g)
    templates := a.templates.map (Property.mapTexts g)
    formData := Json.mapFields g a.formData }

/-- The expressions of all placeholders in the order of visits, left to right inside a
text, as often as they occur. -/
def expressions (a : Action) : List String := a.texts.flatMap Template.holes

/-! ### Mapped texts -/

section

variable {g : String → String}

theorem flatMap_texts_mapTexts (ps : List Property) :
    (ps.map (Property.mapTexts g)).flatMap Property.texts = (ps.flatMap Property.texts).map g := by
  rw [List.flatMap_map, List.map_flatMap]
  rfl

/-- The texts of the mapped action are the mapped texts. -/
theorem texts_mapTexts (a : Action) : (a.mapTexts g).texts = a.texts.map g := by
  simp only [texts, mapTexts, List.map_append, flatMap_texts_mapTexts,
    Json.fieldsTexts_mapFields, Option.toList_map]

theorem map_mapTexts_eq_self {ps : List Property}
    (h : ∀ t ∈ ps.flatMap Property.texts, g t = t) : ps.map (Property.mapTexts g) = ps := by
  refine (List.map_congr_left fun p hp => ?_).trans (List.map_id ps)
  have hkey := h p.key (List.mem_flatMap.mpr ⟨p, hp, List.mem_cons_self⟩)
  have hvalue := h p.value
    (List.mem_flatMap.mpr ⟨p, hp, List.mem_cons_of_mem _ List.mem_cons_self⟩)
  rw [Property.mapTexts, hkey, hvalue]
  rfl

theorem option_map_eq_self {o : Option String} (h : ∀ t ∈ o.toList, g t = t) : o.map g = o := by
  cases o with
  | none => rfl
  | some t => exact congrArg some (h t List.mem_cons_self)

/-- Nothing but texts is mapped. -/
theorem mapTexts_eq_self {a : Action} (h : ∀ t ∈ a.texts, g t = t) : a.mapTexts g = a := by
  simp only [texts, List.forall_mem_append] at h
  obtain ⟨⟨⟨⟨⟨⟨⟨⟨⟨hpath, hbody⟩, hnext⟩, hprev⟩, hheaders⟩, hauto⟩, hquery⟩, hform⟩, htemplates⟩,
    hdata⟩ := h
  rw [mapTexts, option_map_eq_self hpath, option_map_eq_self hbody, option_map_eq_self hnext,
    option_map_eq_self hprev, map_mapTexts_eq_self hheaders, map_mapTexts_eq_self hauto,
    map_mapTexts_eq_self hquery, map_mapTexts_eq_self hform, map_mapTexts_eq_self htemplates,
    Json.mapFields_eq_self hdata]

end

/-! ### Visits -/

variable {m : Type → Type} [Monad m]

/-- Takes note of a text and leaves another one. -/
def rewrite (note : String → m Unit) (g : String → String) (text : String) : m String := do
  note text
  pure (g text)

section

variable {f g : String → m String}

mutual

theorem visitJson_congr : ∀ {j : Json}, (∀ t ∈ j.texts, f t = g t) → visitJson f j = visitJson g j
  | .str s, h => by rw [visitJson, visitJson, h s List.mem_cons_self]
  | .arr _, h => by rw [visitJson, visitJson, visitItems_congr h]
  | .obj _, h => by rw [visitJson, visitJson, visitFields_congr h]
  | .null, _ => rfl
  | .bool _, _ => rfl
  | .num _, _ => rfl

theorem visitItems_congr : ∀ {items : List Json}, (∀ t ∈ Json.itemsTexts items, f t = g t) →
    visitItems f items = visitItems g items
  | [], _ => rfl
  | x :: xs, h => by
    have hx : visitJson f x = visitJson g x :=
      visitJson_congr fun t ht => h t (List.mem_append_left _ ht)
    have hxs : visitItems f xs = visitItems g xs :=
      visitItems_congr fun t ht => h t (List.mem_append_right _ ht)
    rw [visitItems, visitItems, hx, hxs]

theorem visitFields_congr : ∀ {fields : List (String × Json)},
    (∀ t ∈ Json.fieldsTexts fields, f t = g t) → visitFields f fields = visitFields g fields
  | [], _ => rfl
  | (_, x) :: xs, h => by
    have hx : visitJson f x = visitJson g x :=
      visitJson_congr fun t ht => h t (List.mem_append_left _ ht)
    have hxs : visitFields f xs = visitFields g xs :=
      visitFields_congr fun t ht => h t (List.mem_append_right _ ht)
    rw [visitFields, visitFields, hx, hxs]

end

theorem visitText?_congr {text : Option String} (h : ∀ t ∈ text.toList, f t = g t) :
    visitText? f text = visitText? g text := by
  cases text with
  | none => rfl
  | some t => rw [visitText?, visitText?, h t List.mem_cons_self]

theorem visitProperties_congr : ∀ {ps : List Property},
    (∀ t ∈ ps.flatMap Property.texts, f t = g t) → visitProperties f ps = visitProperties g ps
  | [], _ => rfl
  | p :: ps, h => by
    rw [List.flatMap_cons, List.forall_mem_append] at h
    have hkey : f p.key = g p.key := h.1 p.key List.mem_cons_self
    have hvalue : f p.value = g p.value :=
      h.1 p.value (List.mem_cons_of_mem _ List.mem_cons_self)
    rw [visitProperties, visitProperties, hkey, hvalue, visitProperties_congr h.2]

/-- **A visit looks at the texts only.** Two that do the same with each text are the same. -/
theorem visit_congr {a : Action} (h : ∀ t ∈ a.texts, f t = g t) : a.visit f = a.visit g := by
  simp only [texts, List.forall_mem_append] at h
  obtain ⟨⟨⟨⟨⟨⟨⟨⟨⟨hpath, hbody⟩, hnext⟩, hprev⟩, hheaders⟩, hauto⟩, hquery⟩, hform⟩, htemplates⟩,
    hdata⟩ := h
  rw [visit, visit, visitText?_congr hpath, visitText?_congr hbody, visitText?_congr hnext,
    visitText?_congr hprev, visitProperties_congr hheaders, visitProperties_congr hauto,
    visitProperties_congr hquery, visitProperties_congr hform, visitProperties_congr htemplates,
    visitFields_congr hdata]

end

variable [LawfulMonad m] (note : String → m Unit) (g : String → String)

mutual

theorem visitJson_rewrite : ∀ j : Json,
    visitJson (rewrite note g) j = (do forM j.texts note; pure (j.mapTexts g))
  | .str s => by simp [visitJson, rewrite, Json.texts, Json.mapTexts]
  | .arr items => by
    simp [visitJson, Json.texts, Json.mapTexts, visitItems_rewrite items]
  | .obj fields => by
    simp [visitJson, Json.texts, Json.mapTexts, visitFields_rewrite fields]
  | .null => by simp [visitJson, Json.texts, Json.mapTexts]
  | .bool _ => by simp [visitJson, Json.texts, Json.mapTexts]
  | .num _ => by simp [visitJson, Json.texts, Json.mapTexts]

theorem visitItems_rewrite : ∀ items : List Json,
    visitItems (rewrite note g) items =
      (do forM (Json.itemsTexts items) note; pure (Json.mapItems g items))
  | [] => by simp [visitItems, Json.itemsTexts, Json.mapItems]
  | x :: xs => by
    simp [visitItems, Json.itemsTexts, Json.mapItems, visitJson_rewrite x, visitItems_rewrite xs]

theorem visitFields_rewrite : ∀ fields : List (String × Json),
    visitFields (rewrite note g) fields =
      (do forM (Json.fieldsTexts fields) note; pure (Json.mapFields g fields))
  | [] => by simp [visitFields, Json.fieldsTexts, Json.mapFields]
  | (_, x) :: xs => by
    simp [visitFields, Json.fieldsTexts, Json.mapFields, visitJson_rewrite x,
      visitFields_rewrite xs]

end

theorem visitText?_rewrite : ∀ text : Option String,
    visitText? (rewrite note g) text = (do forM text.toList note; pure (text.map g))
  | none => by simp [visitText?]
  | some _ => by simp [visitText?, rewrite]

theorem visitProperties_rewrite : ∀ ps : List Property,
    visitProperties (rewrite note g) ps =
      (do forM (ps.flatMap Property.texts) note; pure (ps.map (Property.mapTexts g)))
  | [] => by simp [visitProperties]
  | p :: ps => by
    simp [visitProperties, rewrite, visitProperties_rewrite ps, Property.texts, Property.mapTexts]

/-- **A visit takes note of the texts in order and maps them.** -/
theorem visit_rewrite (a : Action) :
    a.visit (rewrite note g) = (do forM a.texts note; pure (a.mapTexts g)) := by
  simp only [visit, texts, List.forM_append, visitText?_rewrite, visitProperties_rewrite,
    visitFields_rewrite, bind_assoc, pure_bind]
  rfl

end Action

end Relay
