/-
# Snapshots read back

A stored snapshot is an object with an entry for each part, and without one for the body where
none was sent. The parts are read back whatever the order of the entries, with one exception: a
body that is JSON null has its entry, but null there is read as no body at all. In a text the
reader has less room for the body and the inserted values, since they are nested in the snapshot:
they come back exactly if they fit into what is left.

Key definitions: `Snapshot.Written`, `Snapshot.Ordered`.
Key theorems: `Draft.slots?_perm`, `Snapshot.ofDraft?_eq_some_iff`,
`Snapshot.captured_reads_back_iff`.
-/
import Relay.Audit.Snapshot
import Relay.Proofs.FormAudit
import Relay.Proofs.RoundTrip

namespace Relay

/-! ### Records -/

namespace Draft

variable {xs ys : List (String × Draft)}

/-- The order of the entries does not matter for what stands under a name. -/
theorem slotOf_perm (h : xs.Perm ys) (name : String) : slotOf xs name = slotOf ys name := by
  have hfilter := h.filter fun f => f.1 == name
  unfold slotOf
  generalize xs.filter (fun f => f.1 == name) = fs at hfilter ⊢
  generalize ys.filter (fun f => f.1 == name) = gs at hfilter ⊢
  match fs, gs, hfilter with
  | [], _, hfilter =>
    rw [hfilter.nil_eq]
  | [f], _, hfilter =>
    rw [List.singleton_perm.mp hfilter]
  | f :: f' :: fs, gs, hfilter =>
    match gs, hfilter.length_eq with
    | _ :: _ :: _, _ => rfl

theorem slots?_perm (h : xs.Perm ys) (names : List String) :
    slots? names (.obj xs) = slots? names (.obj ys) := by
  rw [slots?, slots?, funext (slotOf_perm h)]

/-- A list is read back exactly if its items are. -/
theorem list?_eq_some_iff {α : Type} {read : Draft → Option α} {write : α → Draft}
    (items : List α) :
    list? read (.arr (items.map write)) = some items ↔ ∀ a ∈ items, read (write a) = some a := by
  rw [list?]
  induction items with
  | nil => simp
  | cons a items ih =>
    rw [List.map_cons, List.mapM_cons, List.forall_mem_cons, ← ih]
    constructor
    · intro h
      obtain ⟨b, hb, h⟩ := Option.bind_eq_some_iff.mp h
      obtain ⟨bs, hbs, h⟩ := Option.bind_eq_some_iff.mp h
      cases h
      exact ⟨hb, hbs⟩
    · rintro ⟨ha, hitems⟩
      rw [ha, hitems]
      rfl

end Draft

/-- A value that may be missing is there exactly if it is not null. -/
theorem Slot.nullable_value?_iff {d : Draft} {b : Json} :
    Slot.nullable Draft.value? d = some (some b) ↔ b ≠ .null ∧ d.value? = some b := by
  constructor
  · intro h
    unfold nullable at h
    split at h
    · cases h
    · rename_i hd
      obtain ⟨x, hx, heq⟩ := Option.map_eq_some_iff.mp h
      cases heq
      refine ⟨fun hb => hd ?_, hx⟩
      subst hb
      exact Json.eq_toDraft_of_value? hx (fun _ h => nomatch h) fun _ h => nomatch h
  · rintro ⟨hb, hd⟩
    refine Slot.nullable_of_some (fun hnull => hb ?_) hd
    rw [hnull] at hd
    exact (Option.some.inj hd).symm

/-! ### Parts -/

theorem Inserted.ofDraft?_eq_some_iff {i : Inserted} {d : Draft} :
    ofDraft? (.obj [("expression", .str i.expression), ("value", d)]) = some i ↔
      d.value? = some i.value := by
  have hread : ofDraft? (.obj [("expression", .str i.expression), ("value", d)]) =
      d.value?.map fun value => ⟨i.expression, value⟩ := by
    show (d.value?.bind fun value => some (⟨i.expression, value⟩ : Inserted)) = _
    cases d.value? <;> rfl
  rw [hread, Option.map_eq_some_iff]
  exact ⟨fun ⟨_, hvalue, heq⟩ => heq ▸ hvalue, fun hvalue => ⟨_, hvalue, rfl⟩⟩

/-- What a snapshot shows of a body is ordered, if what is sent as JSON is. -/
theorem Body.ordered_audit {b : Body} (hjson : ∀ value, b = .json value → value.ordered = true)
    {j : Json} (h : b.audit = some j) : j.ordered = true := by
  have hfields (fields : List Property) : (fieldsJson fields).ordered = true := by
    refine Json.ordered_object fun field hfield => ?_
    obtain ⟨p, -, rfl⟩ := List.mem_map.mp hfield
    rfl
  cases b with
  | empty => cases h
  | json value =>
    cases h
    exact hjson _ rfl
  | text s =>
    cases h
    rfl
  | form fields | multipart fields =>
    cases h
    exact hfields fields

namespace Property

theorem fits_toJson (p : Property) (room : Nat) : p.toJson.fits (room + 1) = true := rfl

/-- Headers fit where two more levels may be nested. -/
theorem fits_listJson (ps : List Property) (room : Nat) :
    (listJson ps).fits (room + 2) = true := by
  have hitems : Json.itemsFit (room + 1) (ps.map toJson) = true := by
    induction ps with
    | nil => rfl
    | cons p ps ih =>
      rw [List.map_cons, Json.itemsFit, fits_toJson, ih]
      rfl
  rw [listJson, Json.fits, Nat.add_one_sub_one, hitems]
  simp

end Property

/-! ### Snapshots -/

namespace Snapshot

variable {s : Snapshot}

/-- Inserted values, with the values made into documents so. -/
def insertedDraft (value : Json → Draft) (items : List Inserted) : Draft :=
  .arr (items.map fun i => .obj [("expression", .str i.expression), ("value", value i.value)])

/-- The entries of a snapshot whose body and inserted values are made into documents so. -/
def entries (body value : Json → Draft) (s : Snapshot) : List (String × Draft) :=
  (s.body.toList.map fun b => ("body", body b)) ++
    [("executionParameters", insertedDraft value s.inserted),
      ("headers", (Property.listJson s.headers).toDraft),
      ("httpMethod", .str s.method.name),
      ("url", .str s.url)]

theorem list?_insertedDraft_iff (value : Json → Draft) (items : List Inserted) :
    Draft.list? Inserted.ofDraft? (insertedDraft value items) = some items ↔
      ∀ i ∈ items, (value i.value).value? = some i.value :=
  (Draft.list?_eq_some_iff items).trans (forall₂_congr fun _ _ => Inserted.ofDraft?_eq_some_iff)

variable {body value : Json → Draft} {ds : List (String × Draft)}

/-- Each part is read from its own entry. -/
theorem ofDraft?_entries (h : (s.entries body value).Perm ds) :
    ofDraft? (.obj ds) =
      (s.body.elim (some none) fun b => Slot.nullable Draft.value? (body b)).bind fun b =>
        (Draft.list? Inserted.ofDraft? (insertedDraft value s.inserted)).map
          fun inserted => { s with body := b, inserted } := by
  have hslots : Draft.slots? ["url", "httpMethod", "headers", "body", "executionParameters"]
      (.obj ds) = some [.given (.str s.url), .given (.str s.method.name),
        .given (Property.listJson s.headers).toDraft,
        s.body.elim .absent fun b => .given (body b),
        .given (insertedDraft value s.inserted)] := by
    rw [← Draft.slots?_perm h, entries]
    cases s.body <;> rfl
  have hbody : Slot.orElse none (Slot.nullable Draft.value?)
      (s.body.elim .absent fun b => .given (body b)) =
        s.body.elim (some none) fun b => Slot.nullable Draft.value? (body b) := by
    cases s.body <;> rfl
  unfold ofDraft?
  rw [hslots]
  simp only [Option.bind_eq_bind, Option.bind_some, Slot.required, Draft.text?,
    Method.ofDraft?_name, Property.listOfDraft?_listJson, hbody]
  refine congrArg _ (funext fun b => ?_)
  show (Draft.list? Inserted.ofDraft? (insertedDraft value s.inserted)).bind _ = _
  cases Draft.list? Inserted.ofDraft? (insertedDraft value s.inserted) <;> rfl

/-- **A snapshot is read back exactly if its body and the inserted values are**, and its body
is not null. -/
theorem ofDraft?_eq_some_iff (h : (s.entries body value).Perm ds) : ofDraft? (.obj ds) = some s ↔
    (∀ b, s.body = some b → b ≠ .null ∧ (body b).value? = some b) ∧
      ∀ i ∈ s.inserted, (value i.value).value? = some i.value := by
  have hbody : (s.body.elim (some none) fun b => Slot.nullable Draft.value? (body b)) =
      some s.body ↔ ∀ b, s.body = some b → b ≠ .null ∧ (body b).value? = some b := by
    cases s.body with
    | none => simp
    | some b => simp [Slot.nullable_value?_iff]
  rw [ofDraft?_entries h, ← hbody, ← list?_insertedDraft_iff]
  constructor
  · intro h
    obtain ⟨b, hb, h⟩ := Option.bind_eq_some_iff.mp h
    obtain ⟨inserted, hinserted, heq⟩ := Option.map_eq_some_iff.mp h
    exact ⟨hb.trans (congrArg (some ·.body) heq), hinserted.trans (congrArg (some ·.inserted) heq)⟩
  · rintro ⟨hb, hinserted⟩
    rw [hb, hinserted]
    rfl

/-- A body that is null is lost, and nothing else. -/
theorem ofDraft?_of_null (hs : s.body = some .null) (hbody : body .null = .null)
    (hvalues : ∀ i ∈ s.inserted, (value i.value).value? = some i.value)
    (h : (s.entries body value).Perm ds) :
    ofDraft? (.obj ds) = some { s with body := none } := by
  rw [ofDraft?_entries h, hs, (list?_insertedDraft_iff value s.inserted).mpr hvalues,
    Option.elim_some, hbody]
  rfl

/-! ### Values and texts of snapshots -/

/-- The object of a snapshot, its entries in any order. -/
def Written (s : Snapshot) (j : Json) : Prop :=
  ∃ xs ys, s.toJson = .obj xs ∧ xs.Perm ys ∧ j = .obj ys

theorem fieldDrafts_toJson {xs : List (String × Json)} (h : s.toJson = .obj xs) :
    Json.fieldDrafts xs = s.entries Json.toDraft Json.toDraft := by
  cases h
  have hinserted : Json.itemDrafts (s.inserted.map Inserted.toJson) =
      s.inserted.map fun i =>
        .obj [("expression", .str i.expression), ("value", i.value.toDraft)] := by
    rw [itemDrafts_eq_map, List.map_map]
    rfl
  rw [Json.fieldDrafts_eq_map, entries, insertedDraft, ← hinserted]
  cases s.body <;> rfl

theorem fieldsAsRead_toJson {xs : List (String × Json)} (h : s.toJson = .obj xs) (room : Nat) :
    Json.fieldsAsRead (room + 2) xs = s.entries (Json.asRead (room + 2)) (Json.asRead room) := by
  cases h
  have hinserted : Json.itemsAsRead (room + 1) (s.inserted.map Inserted.toJson) =
      s.inserted.map fun i =>
        .obj [("expression", .str i.expression), ("value", i.value.asRead room)] := by
    rw [Json.itemsAsRead_eq_map, List.map_map]
    rfl
  have hheaders := Json.asRead_of_fits _ (Property.fits_listJson s.headers room)
  rw [Json.fieldsAsRead_eq_map, entries, insertedDraft, ← hinserted, ← hheaders]
  cases s.body <;> rfl

theorem Written.toDraft {j : Json} (h : s.Written j) :
    ∃ ds, j.toDraft = .obj ds ∧ (s.entries Json.toDraft Json.toDraft).Perm ds := by
  obtain ⟨xs, ys, hs, hperm, rfl⟩ := h
  refine ⟨Json.fieldDrafts ys, rfl, ?_⟩
  rw [← fieldDrafts_toJson hs, Json.fieldDrafts_eq_map, Json.fieldDrafts_eq_map]
  exact hperm.map _

theorem Written.asRead {j : Json} (h : s.Written j) (room : Nat) :
    ∃ ds, j.asRead (room + 3) = .obj ds ∧
      (s.entries (Json.asRead (room + 2)) (Json.asRead room)).Perm ds := by
  obtain ⟨xs, ys, hs, hperm, rfl⟩ := h
  refine ⟨Json.fieldsAsRead (room + 2) ys, rfl, ?_⟩
  rw [← fieldsAsRead_toJson hs, Json.fieldsAsRead_eq_map, Json.fieldsAsRead_eq_map]
  exact hperm.map _

open Json.Read (document? maxDepth)

/-- The body and the inserted values are ordered. -/
structure Ordered (s : Snapshot) : Prop where
  body : ∀ b, s.body = some b → b.ordered = true
  inserted : ∀ i ∈ s.inserted, i.value.ordered = true

variable {j : Json}

theorem Ordered.value?_toDraft (h : s.Ordered) :
    ∀ i ∈ s.inserted, i.value.toDraft.value? = some i.value :=
  fun i hi => Json.value?_toDraft i.value (h.inserted i hi)

/-- As a value a snapshot is read back exactly if its body is not null. -/
theorem Written.ofDraft?_toDraft_iff (hj : s.Written j) (h : s.Ordered) :
    ofDraft? j.toDraft = some s ↔ s.body ≠ some .null := by
  obtain ⟨ds, hds, hperm⟩ := hj.toDraft
  rw [hds, ofDraft?_eq_some_iff hperm]
  constructor
  · rintro ⟨hbody, -⟩ hnull
    exact (hbody _ hnull).1 rfl
  · intro hnull
    refine ⟨fun b hb => ⟨fun hb' => hnull (hb' ▸ hb), ?_⟩, h.value?_toDraft⟩
    exact Json.value?_toDraft b (h.body b hb)

theorem Written.ofDraft?_toDraft (hj : s.Written j) (h : s.Ordered) :
    ofDraft? j.toDraft = some { s with body := if s.body = some .null then none else s.body } := by
  by_cases hnull : s.body = some .null
  · obtain ⟨ds, hds, hperm⟩ := hj.toDraft
    rw [if_pos hnull, hds, ofDraft?_of_null hnull rfl h.value?_toDraft hperm]
  · rw [if_neg hnull, (hj.ofDraft?_toDraft_iff h).mpr hnull]

/-- From its text a snapshot is read back exactly if, besides, its body and the inserted values
fit into what room it leaves to them. -/
theorem Written.document?_print_iff (hj : s.Written j) (h : s.Ordered) :
    (document? j.print).bind ofDraft? = some s ↔ s.body ≠ some .null ∧
      (∀ b, s.body = some b → b.fits (maxDepth - 1) = true) ∧
        ∀ i ∈ s.inserted, i.value.fits (maxDepth - 3) = true := by
  obtain ⟨ds, hds, hperm⟩ := hj.asRead (maxDepth - 3)
  have hread : document? j.print = some (.obj ds) :=
    (Json.document?_print_eq j).trans (congrArg some hds)
  rw [hread, Option.bind_some, ofDraft?_eq_some_iff hperm]
  constructor
  · rintro ⟨hbody, hinserted⟩
    refine ⟨fun hnull => (hbody _ hnull).1 rfl, fun b hb => ?_, fun i hi => ?_⟩
    · exact (Json.value?_asRead_iff (h.body b hb)).mp (hbody b hb).2
    · exact (Json.value?_asRead_iff (h.inserted i hi)).mp (hinserted i hi)
  · rintro ⟨hnull, hbody, hinserted⟩
    refine ⟨fun b hb => ⟨fun hb' => hnull (hb' ▸ hb), ?_⟩, fun i hi => ?_⟩
    · exact (Json.value?_asRead_iff (h.body b hb)).mpr (hbody b hb)
    · exact (Json.value?_asRead_iff (h.inserted i hi)).mpr (hinserted i hi)

/-! ### Main result -/

/-- **A captured snapshot is read back exactly if its body is not null**, whatever the order in
which its entries are written; a body that is null is lost, and nothing else is. From a text it
is read back exactly if, besides, the body fits into the levels that the snapshot leaves of the
reader's, and each inserted value into those that its list and its object leave as well. -/
theorem captured_reads_back_iff (r : Redaction) (method : Method) (url : String)
    (headers : List Property) (body : Option Json) (inserted : List Inserted) (s : Snapshot)
    (hs : capture r method url headers body inserted = s)
    (hbody : ∀ b, body = some b → b.ordered = true)
    (hinserted : ∀ i ∈ inserted, i.value.ordered = true) :
    ∀ j, s.Written j →
      ofDraft? j.toDraft = some { s with body := if body = some .null then none else body } ∧
      (ofDraft? j.toDraft = some s ↔ body ≠ some .null) ∧
      ((document? j.print).bind ofDraft? = some s ↔ body ≠ some .null ∧
        (∀ b, body = some b → b.fits (maxDepth - 1) = true) ∧
          ∀ i ∈ inserted, i.value.fits (maxDepth - 3) = true) := by
  subst hs
  intro j hj
  have hordered : (capture r method url headers body inserted).Ordered := ⟨hbody, hinserted⟩
  exact ⟨hj.ofDraft?_toDraft hordered, hj.ofDraft?_toDraft_iff hordered,
    hj.document?_print_iff hordered⟩

/-- A body of several kinds of values. -/
def nestedBody : Json :=
  .obj [("items", .arr [.ofInt (-3), .null, .arr []]), ("name", .str "\"\n")]

/-- A request with that body and a cookie, and the value of one expression. -/
def nestedSnapshot : Snapshot :=
  capture {} .post "http://a.test/?x=1" [⟨"Cookie", "c"⟩, ⟨"", ""⟩] (Body.json nestedBody).audit
    [⟨"input.q", .obj [("", .null)]⟩]

/-- Its entries are written in the order of the parts. -/
theorem captured_reads_back_iff_nested :
    (∀ b, (Body.json nestedBody).audit = some b → b.ordered = true) ∧
    ∃ j, nestedSnapshot.Written j ∧ ofDraft? j.toDraft = some nestedSnapshot ∧
      (document? j.print).bind ofDraft? = some nestedSnapshot := by
  have hbody : ∀ b, (Body.json nestedBody).audit = some b → b.ordered = true := by
    intro b hb
    refine Body.ordered_audit (fun value hvalue => ?_) hb
    cases hvalue
    decide
  have hinserted : ∀ i ∈ [(⟨"input.q", .obj [("", .null)]⟩ : Inserted)],
      i.value.ordered = true := by
    decide
  have hwritten : nestedSnapshot.Written (.obj
      [("url", .str "http://a.test/?x=1"), ("httpMethod", .str "POST"),
        ("headers", Property.listJson nestedSnapshot.headers), ("body", nestedBody),
        ("executionParameters", .arr (nestedSnapshot.inserted.map Inserted.toJson))]) :=
    ⟨_, _, rfl, by decide +kernel, rfl⟩
  obtain ⟨-, hvalue, htext⟩ := captured_reads_back_iff _ _ _ _ _ _ nestedSnapshot rfl hbody
    hinserted _ hwritten
  refine ⟨hbody, _, hwritten, hvalue.mpr (by decide), htext.mpr ⟨by decide, ?_, by decide⟩⟩
  rintro _ ⟨⟩
  decide +kernel

/-- A request with JSON null as its body. -/
def nullSnapshot : Snapshot :=
  capture {} .post "http://a.test/" [⟨"Content-Type", "application/json"⟩] (Body.json .null).audit []

/-- **A body that is null is not read back**: its entry is written, but it is read as no body,
from the value as from the text. -/
theorem captured_loses_null :
    nullSnapshot.body = some .null ∧ nullSnapshot.toJson.field? "body" = some .null ∧
    ofDraft? nullSnapshot.toJson.toDraft = some { nullSnapshot with body := none } ∧
    (document? nullSnapshot.toJson.print).bind ofDraft? =
      some { nullSnapshot with body := none } := by
  rw [Json.document?_print_eq]
  decide +kernel

end Snapshot

end Relay
