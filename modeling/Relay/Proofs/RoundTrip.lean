/-
# Stored actions and datasources read back

An action and a datasource are stored as JSON objects with one entry for each part. Every part
is read back from its own entry as it was written: words by their place in a list of all words,
lists in their order, what may be missing as null or by itself, and the form data as they are,
since their entries ascend. Only the references of an action to its own answer are not stored.

Key definition: `Datasource.DatesReadBack`.
Key theorems: `Property.listOfDraft?_listJson`, `Action.ofDraft?_toJson`,
`Action.ordered_of_ofDraft?`, `Datasource.ofDraft?_toJson`, `stored_read_back`.
-/
import Relay.Action.Stored
import Relay.Datasource
import Relay.Proofs.Ordering
import Relay.Proofs.Storing

namespace Relay

/-! ### Parts -/

theorem itemDrafts_eq_map (items : List Json) : Json.itemDrafts items = items.map Json.toDraft := by
  induction items with
  | nil => rfl
  | cons x xs ih => simp [Json.itemDrafts, ih]

/-- A list is read back if its items are. -/
theorem Draft.list?_toDraft {α : Type} {read : Draft → Option α} {write : α → Json}
    (h : ∀ a, read (write a).toDraft = some a) (items : List α) :
    Draft.list? read (Json.arr (items.map write)).toDraft = some items := by
  rw [Json.toDraft, Draft.list?, itemDrafts_eq_map, List.map_map, List.mapM_map]
  have hread : read ∘ (Json.toDraft ∘ write) = fun a => pure a := funext h
  rw [hread, List.mapM_pure, List.map_id']
  rfl

theorem Slot.nullable_ofText? (o : Option String) :
    Slot.nullable Draft.text? (Json.ofText? o).toDraft = some o :=
  Credential.ofText?_of_reordered (.same _)

theorem Property.ofDraft?_toJson (p : Property) : ofDraft? p.toJson.toDraft = some p := rfl

theorem Property.listOfDraft?_listJson (ps : List Property) :
    listOfDraft? (listJson ps).toDraft = some ps :=
  Draft.list?_toDraft ofDraft?_toJson ps

theorem Method.ofDraft?_name (m : Method) : ofDraft? (.str m.name) = some m := by
  cases m <;> decide

theorem Paging.ofDraft?_name (p : Paging) : ofDraft? (.str p.name) = some p := by
  cases p <;> decide

/-- The entries of an object are read one by one. -/
theorem Draft.fieldValues?_eq_mapM (fields : List (String × Draft)) :
    fieldValues? fields = fields.mapM fun f => f.2.value?.map (f.1, ·) := by
  induction fields with
  | nil => rfl
  | cons field fields ih =>
    rw [List.mapM_cons, ← ih]
    cases hvalue : field.2.value? with
    | none => simp [fieldValues?, hvalue]
    | some x => simp [fieldValues?, hvalue]

namespace Action

/-- The form data are read as an object is. -/
theorem formDataOfDraft?_eq_some_iff {d : Draft} {data : Table Json} :
    formDataOfDraft? d = some data ↔ d.value? = some (.obj data) := by
  unfold formDataOfDraft?
  cases d with
  | obj fields =>
    rw [Draft.table?, ← Draft.fieldValues?_eq_mapM, Draft.value?]
    cases Draft.fieldValues? fields with
    | none => simp
    | some pairs => simp [Json.object]
  | arr items => simp [Draft.table?, Draft.value?]
  | null | bool | num | str | unreadable => simp [Draft.table?, Draft.value?]

/-- Every number that a timeout may be is read back. -/
theorem timeoutOfDraft?_ofInt (ms : Int64) :
    timeoutOfDraft? (Json.ofInt ms.toInt).toDraft = some (some ms) := by
  have hlow := ms.le_toInt
  have hhigh := Int.le_sub_one_of_lt ms.toInt_lt
  show (Draft.int? _ _ (.num (.int ms.toInt))).map (fun n => some (Int64.ofInt n)) = _
  rw [Draft.int?, if_pos ⟨hlow, hhigh⟩, Option.map_some, Int64.ofInt_toInt]

/-! ### Actions -/

variable {a : Action}

/-- Each part of a stored action is found under its name. -/
theorem slots?_toJson (a : Action) : ∃ timeout : Json,
    timeoutOfDraft? timeout.toDraft = some a.timeout ∧
    a.toJson.toDraft.slots? fieldNames =
      some ([.str a.method.name, Json.ofText? a.path, Property.listJson a.headers,
        Property.listJson a.autoHeaders, Property.listJson a.query, .bool a.encodeQuery,
        Json.ofText? a.body, Property.listJson a.form, Property.listJson a.templates,
        .obj a.formData, timeout, .str a.paging.name, Json.ofText? a.next,
        Json.ofText? a.prev].map fun part => .given part.toDraft) := by
  unfold toJson
  cases a.timeout with
  | none => exact ⟨.null, rfl, rfl⟩
  | some ms => exact ⟨Json.ofInt ms.toInt, timeoutOfDraft?_ofInt ms, rfl⟩

/-- **A stored action is read back**, but for the references to its own answer. -/
theorem ofDraft?_toJson (h : (Json.obj a.formData).ordered = true) :
    ofDraft? a.toJson.toDraft = some { a with selfReferences := [] } := by
  have hdata : formDataOfDraft? (Json.obj a.formData).toDraft = some a.formData :=
    formDataOfDraft?_eq_some_iff.mpr (Json.value?_toDraft _ h)
  obtain ⟨timeout, htimeout, hslots⟩ := a.slots?_toJson
  unfold ofDraft?
  refine Option.bind_eq_some_iff.mpr ⟨_, hslots, ?_⟩
  refine Option.bind_eq_some_iff.mpr ⟨a.method, Method.ofDraft?_name a.method, ?_⟩
  refine Option.bind_eq_some_iff.mpr ⟨a.path, Slot.nullable_ofText? a.path, ?_⟩
  refine Option.bind_eq_some_iff.mpr ⟨a.headers, Property.listOfDraft?_listJson a.headers, ?_⟩
  refine Option.bind_eq_some_iff.mpr
    ⟨a.autoHeaders, Property.listOfDraft?_listJson a.autoHeaders, ?_⟩
  refine Option.bind_eq_some_iff.mpr ⟨a.query, Property.listOfDraft?_listJson a.query, ?_⟩
  refine Option.bind_eq_some_iff.mpr ⟨a.encodeQuery, rfl, ?_⟩
  refine Option.bind_eq_some_iff.mpr ⟨a.body, Slot.nullable_ofText? a.body, ?_⟩
  refine Option.bind_eq_some_iff.mpr ⟨a.form, Property.listOfDraft?_listJson a.form, ?_⟩
  refine Option.bind_eq_some_iff.mpr
    ⟨a.templates, Property.listOfDraft?_listJson a.templates, ?_⟩
  refine Option.bind_eq_some_iff.mpr ⟨a.formData, hdata, ?_⟩
  refine Option.bind_eq_some_iff.mpr ⟨a.timeout, htimeout, ?_⟩
  refine Option.bind_eq_some_iff.mpr ⟨a.paging, Paging.ofDraft?_name a.paging, ?_⟩
  refine Option.bind_eq_some_iff.mpr ⟨a.next, Slot.nullable_ofText? a.next, ?_⟩
  exact Option.bind_eq_some_iff.mpr ⟨a.prev, Slot.nullable_ofText? a.prev, rfl⟩

/-- Form data are ordered whether they are read or missing. -/
theorem ordered_of_orElse {slot : Slot} {data : Table Json}
    (h : slot.orElse [] formDataOfDraft? = some data) : (Json.obj data).ordered = true := by
  cases slot with
  | given d => exact Json.ordered_of_value? d (formDataOfDraft?_eq_some_iff.mp h)
  | absent | short =>
    cases h
    rfl

/-- Whatever is read as an action has ordered form data. -/
theorem ordered_of_ofDraft? {d : Draft} (h : ofDraft? d = some a) :
    (Json.obj a.formData).ordered = true := by
  obtain ⟨slots, -, h⟩ := Option.bind_eq_some_iff.mp h
  split at h
  · iterate 9 obtain ⟨_, -, h⟩ := Option.bind_eq_some_iff.mp h
    obtain ⟨data, hdata, h⟩ := Option.bind_eq_some_iff.mp h
    iterate 4 obtain ⟨_, -, h⟩ := Option.bind_eq_some_iff.mp h
    cases h
    exact ordered_of_orElse hdata
  · cases h

end Action

/-! ### Datasources -/

namespace Datasource

/-- The instants of the credential are read back as they are written. -/
def DatesReadBack (d : Datasource) : Prop := ∀ c, d.credential = some c → c.DatesReadBack

variable {d : Datasource}

/-- **A stored datasource is read back**, with every part of its credential. -/
theorem ofDraft?_toJson (hdates : d.DatesReadBack) :
    ofDraft? d.toJson.toDraft = some d := by
  have hcredential : Slot.nullable Credential.ofDraft?
      (Json.orNull (d.credential.map Credential.toJson)).toDraft = some d.credential :=
    (Json.Reordered.same _).nullable (fun c => by cases c <;> exact fun h => nomatch h)
      fun c hc j hj => Credential.ofDraft?_of_reordered (hdates c hc) hj
  have hslots : d.toJson.toDraft.slots?
      ["id", "url", "headers", "queryParameters", "authentication", "properties"] =
        some ([Json.ofText? d.id, Json.ofText? d.url, Property.listJson d.headers,
          Property.listJson d.query, Json.orNull (d.credential.map Credential.toJson),
          Property.listJson d.properties].map fun part => .given part.toDraft) := rfl
  unfold ofDraft?
  rw [hslots]
  simp only [List.map_cons, List.map_nil, Option.bind_eq_bind, Option.bind_some, Slot.orElse,
    Slot.nullable_ofText?, Property.listOfDraft?_listJson, hcredential]
  rfl

end Datasource

/-! ### Main result -/

/-- **What is stored is read back.** An action whose form data are ordered is read back from its
JSON value with all its parts but the references to its own answer, which are not stored; and
the form data of any action that is read are ordered. A datasource is read back from its JSON
value with all its parts, every secret of its credential included, if the instants of the
credential's token are read back as they are written. -/
theorem stored_read_back :
    (∀ a : Action, (Json.obj a.formData).ordered = true →
      Action.ofDraft? a.toJson.toDraft = some { a with selfReferences := [] }) ∧
    (∀ d a, Action.ofDraft? d = some a → (Json.obj a.formData).ordered = true) ∧
    ∀ d : Datasource, d.DatesReadBack → Datasource.ofDraft? d.toJson.toDraft = some d :=
  ⟨fun _ => Action.ofDraft?_toJson, fun _ _ => Action.ordered_of_ofDraft?,
    fun _ => Datasource.ofDraft?_toJson⟩

/-- A request for a page, with names that repeat, a nested form and a reference to itself. -/
def storedAction : Action :=
  { method := .options
    headers := [⟨"b", "1"⟩, ⟨"a", ""⟩, ⟨"b", "1"⟩]
    encodeQuery := false
    body := some ""
    formData := [("a", .obj [("x", .null), ("y", .arr [.ofInt (-3), .str ""])]), ("b", .bool false)]
    timeout := some (-1)
    paging := .pageNo
    prev := some "null"
    selfReferences := ["data"] }

/-- A client's datasource with a token that expires. -/
def storedDatasource : Datasource :=
  { id := some ""
    credential := some (.oauth
      { id := "me"
        secret := ⟨"mine"⟩
        tokenUrl := "http://a.test"
        scope := some ""
        token := some { secret := ⟨"t"⟩, expiresAt := some ⟨3600, 0⟩, issuedAt := default } })
    properties := [⟨"", "x"⟩] }

theorem stored_read_back_nested : (Json.obj storedAction.formData).ordered = true ∧
    Action.ofDraft? storedAction.toJson.toDraft =
      some { storedAction with selfReferences := [] } ∧
    storedDatasource.DatesReadBack ∧
    Datasource.ofDraft? storedDatasource.toJson.toDraft = some storedDatasource := by
  have hordered : (Json.obj storedAction.formData).ordered = true := by decide
  have hdates : storedDatasource.DatesReadBack := by
    rintro _ ⟨⟩ _ ⟨⟩
    exact ⟨by decide +kernel, fun expiry h => by cases h; decide +kernel⟩
  exact ⟨hordered, stored_read_back.1 _ hordered, hdates, stored_read_back.2.2 _ hdates⟩

end Relay
