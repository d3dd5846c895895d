/-
# Stored credentials read back

What is stored of a credential is its object as text. Whatever the order in which the entries
of the object and those of its token stand in the text, it is read back as the credential, if
the instants of the token are read back as they are written.

Key definitions: `Json.Reordered`, `Token.DatesReadBack`, `Credential.DatesReadBack`.
Key theorems: `Json.Reordered.slotOf`, `Token.ofDraft?_of_reordered`,
`Credential.ofDraft?_of_reordered`, `Credential.ofText?_print`.
-/
import Relay.Proofs.JsonText
import Relay.Credential.Stored

namespace Relay

namespace Json

/-- The same value, the entries of its objects in any order. Arrays stay as they are. -/
inductive Reordered : Json → Json → Prop
  | same (j : Json) : Reordered j j
  | obj {xs ys : List (String × Json)} (hnames : (xs.map Prod.fst).Perm (ys.map Prod.fst))
    (h : ∀ name x y, (name, x) ∈ xs → (name, y) ∈ ys → Reordered x y) :
    Reordered (.obj xs) (.obj ys)

theorem Reordered.str {s : String} {j : Json} (h : Reordered (.str s) j) : j = .str s := by
  cases h
  rfl

theorem Reordered.null {j : Json} (h : Reordered .null j) : j = .null := by
  cases h
  rfl

theorem fieldsFit_iff {room : Nat} {fields : List (String × Json)} :
    fieldsFit room fields = true ↔ ∀ field ∈ fields, field.2.fits room = true := by
  induction fields with
  | nil => simp [fieldsFit]
  | cons field fields ih => simp [fieldsFit, ih]

theorem Reordered.fits {x y : Json} (h : Reordered x y) : ∀ {room : Nat},
    x.fits room = true → y.fits room = true := by
  induction h with
  | same j => exact id
  | @obj xs ys hnames h ih =>
    intro room hfits
    simp only [Json.fits, Bool.and_eq_true, fieldsFit_iff] at hfits ⊢
    refine ⟨hfits.1, fun ⟨name, y⟩ hy => ?_⟩
    have hname : name ∈ xs.map Prod.fst :=
      hnames.mem_iff.mpr (List.mem_map.mpr ⟨_, hy, rfl⟩)
    obtain ⟨⟨_, x⟩, hx, rfl⟩ := List.mem_map.mp hname
    exact ih _ x y hx hy (hfits.2 _ hx)

theorem fieldDrafts_eq_map (fields : List (String × Json)) :
    fieldDrafts fields = fields.map fun field => (field.1, field.2.toDraft) := by
  induction fields with
  | nil => rfl
  | cons field fields ih =>
    rw [fieldDrafts, ih]
    rfl

/-- The only entry of a name stays the only entry of that name. -/
theorem Reordered.entry {xs ys : List (String × Json)} (h : Reordered (.obj xs) (.obj ys))
    {name : String} {x : Json} (hx : (xs.filter fun f => f.1 == name) = [(name, x)]) :
    ∃ y, Reordered x y ∧ (ys.filter fun f => f.1 == name) = [(name, y)] := by
  cases h with
  | same => exact ⟨x, .same x, hx⟩
  | obj hnames h =>
    have hfiltered := hnames.filter fun other => other == name
    rw [List.filter_map, List.filter_map] at hfiltered
    have hsingle : (ys.filter fun f => f.1 == name).map Prod.fst = [name] := by
      have := hfiltered.symm
      simp only [Function.comp_def, hx] at this
      exact List.perm_singleton.mp this
    obtain ⟨⟨name', y⟩, hy, hname⟩ := List.map_eq_singleton_iff.mp hsingle
    cases hname
    have hmem (zs : List (String × Json)) (z : Json)
        (hz : (zs.filter fun f => f.1 == name') = [(name', z)]) : (name', z) ∈ zs :=
      (List.mem_filter.mp (hz ▸ List.mem_singleton_self _)).1
    exact ⟨y, h _ x y (hmem _ _ hx) (hmem _ _ hy), hy⟩

theorem filter_fieldDrafts {fields : List (String × Json)} {name : String} {y : Json}
    (h : (fields.filter fun f => f.1 == name) = [(name, y)]) :
    ((fieldDrafts fields).filter fun f => f.1 == name) = [(name, y.toDraft)] := by
  rw [fieldDrafts_eq_map, List.filter_map]
  simp only [Function.comp_def, h]
  rfl

theorem Reordered.slotOf {xs ys : List (String × Json)} (h : Reordered (.obj xs) (.obj ys))
    (name : String) {x : Json} (hx : (xs.filter fun f => f.1 == name) = [(name, x)]) :
    ∃ y, Reordered x y ∧ Draft.slotOf (fieldDrafts ys) name = some (.given y.toDraft) := by
  obtain ⟨y, hy, hys⟩ := h.entry hx
  refine ⟨y, hy, ?_⟩
  unfold Draft.slotOf
  rw [filter_fieldDrafts hys]

theorem Reordered.slotOf_str {xs ys : List (String × Json)} (h : Reordered (.obj xs) (.obj ys))
    (name : String) {s : String} (hx : (xs.filter fun f => f.1 == name) = [(name, .str s)]) :
    Draft.slotOf (fieldDrafts ys) name = some (.given (.str s)) := by
  obtain ⟨y, hy, hslot⟩ := h.slotOf name hx
  rw [hslot, hy.str]
  rfl

theorem Reordered.exists_fields {xs : List (String × Json)} {j : Json}
    (h : Reordered (.obj xs) j) : ∃ ys, j = .obj ys := by
  cases h with
  | same => exact ⟨xs, rfl⟩
  | @obj _ ys => exact ⟨ys, rfl⟩

end Json

open Json

theorem Slot.nullable_of_some {α : Type} {read : Draft → Option α} {d : Draft} {a : α}
    (hd : d ≠ .null) (h : read d = some a) : Slot.nullable read d = some (some a) := by
  unfold nullable
  split
  · exact absurd rfl hd
  · rw [h]
    rfl

theorem Json.Reordered.ne_null {x y : Json} (h : Reordered x y) (hx : x ≠ .null) :
    y.toDraft ≠ .null := by
  intro hnull
  cases y with
  | null =>
    cases h
    exact hx rfl
  | bool | num | str | arr | obj => cases hnull

/-- A value that may be missing is read back, if it is when it is there. -/
theorem Json.Reordered.nullable {α : Type} {read : Draft → Option α} {o : Option α}
    {write : α → Json} {j : Json} (h : Reordered (.orNull (o.map write)) j)
    (hwrite : ∀ a, write a ≠ .null)
    (hread : ∀ a, o = some a → ∀ y, Reordered (write a) y → read y.toDraft = some a) :
    Slot.nullable read j.toDraft = some o := by
  cases o with
  | none =>
    rw [h.null]
    rfl
  | some a => exact Slot.nullable_of_some (h.ne_null (hwrite a)) (hread a rfl j h)

/-- The instants of a token are read back as they are written. -/
structure Token.DatesReadBack (t : Token) : Prop where
  issued : Instant.parse? t.issuedAt.print = some t.issuedAt
  expires : ∀ expiry, t.expiresAt = some expiry → Instant.parse? expiry.print = some expiry

theorem Instant.ofDraft?_of_reordered {t : Instant} (h : parse? t.print = some t) {j : Json}
    (hj : Reordered t.toJson j) : Instant.ofDraft? j.toDraft = some t := by
  rw [hj.str]
  unfold ofDraft?
  rw [toDraft, Draft.text?, Option.bind_some, h]

theorem Token.ofDraft?_of_reordered {t : Token} (hdates : t.DatesReadBack) {j : Json}
    (h : Reordered t.toJson j) : Token.ofDraft? j.toDraft = some t := by
  obtain ⟨fields, rfl⟩ := h.exists_fields
  obtain ⟨x, hx, hsecret⟩ := h.slotOf "token" rfl
  obtain ⟨y, hy, hexpires⟩ := h.slotOf "expiresAt" rfl
  obtain ⟨z, hz, hissued⟩ := h.slotOf "issuedAt" rfl
  have hsecret' : Secret.ofDraft? x.toDraft = some t.secret := by
    rw [hx.str]
    rfl
  have hexpires' : Slot.nullable Instant.ofDraft? y.toDraft = some t.expiresAt :=
    hy.nullable (fun expiry h => nomatch h) fun expiry hexpiry y hy =>
      Instant.ofDraft?_of_reordered (hdates.expires expiry hexpiry) hy
  have hissued' := Instant.ofDraft?_of_reordered hdates.issued hz
  unfold Token.ofDraft?
  show (["token", "expiresAt", "issuedAt"].mapM (Draft.slotOf (fieldDrafts fields)) >>= _) = _
  simp only [List.mapM_cons, List.mapM_nil, hsecret, hexpires, hissued]
  show (Secret.ofDraft? x.toDraft >>= fun secret =>
    Slot.nullable Instant.ofDraft? y.toDraft >>= fun expiresAt =>
    Instant.ofDraft? z.toDraft >>= fun issuedAt =>
      some (⟨secret, expiresAt, issuedAt⟩ : Token)) = _
  rw [hsecret', hexpires', hissued']
  rfl

namespace Credential

/-- The instants of the credential's token are read back as they are written. -/
def DatesReadBack (c : Credential) : Prop := ∀ t, c.token? = some t → t.DatesReadBack

theorem kindOfTag?_word (kind : Kind) : kindOfTag? (.str kind.word) = some kind := by
  cases kind <;> decide

theorem ofWord?_word (place : KeyPlace) : KeyPlace.ofWord? place.word = some place := by
  cases place <;> decide

/-- An object with one tag is read as its tag says. -/
theorem ofDraft?_of_tag {fields : List (String × Json)} {kind : Kind}
    (h : (fields.filter fun f => f.1 == tagName) = [(tagName, .str kind.word)]) :
    ofDraft? (toDraft (.obj fields)) = ofFields? kind (toDraft (.obj fields)) := by
  obtain ⟨value, hvalue⟩ := Option.isSome_iff_exists.mp (isSome_value?_toDraft (.obj fields))
  unfold ofDraft?
  rw [hvalue, toDraft]
  dsimp only [bind, Option.bind]
  rw [filter_fieldDrafts h]
  show (kindOfTag? (.str kind.word) >>= fun kind => ofFields? kind _) = _
  rw [kindOfTag?_word]
  rfl

theorem ofText?_of_reordered {o : Option String} {j : Json} (h : Reordered (Json.ofText? o) j) :
    Slot.nullable Draft.text? j.toDraft = some o := by
  cases o with
  | none =>
    rw [Reordered.null h]
    rfl
  | some s =>
    rw [Reordered.str h]
    rfl

theorem ofFields?_oauth_of_reordered {client : OAuthClient}
    (hdates : (Credential.oauth client).DatesReadBack) {fields : List (String × Json)}
    (h : Reordered (oauth client).toJson (.obj fields)) :
    ofFields? .oauth (.obj (fieldDrafts fields)) = some (oauth client) := by
  have hid := h.slotOf_str "clientId" rfl
  have hsecret := h.slotOf_str "clientSecret" rfl
  have hurl := h.slotOf_str "accessTokenUrl" rfl
  obtain ⟨x, hx, hscope⟩ := h.slotOf "scope" rfl
  obtain ⟨y, hy, htoken⟩ := h.slotOf "authenticationResponse" rfl
  have htoken' : Slot.nullable Token.ofDraft? y.toDraft = some client.token :=
    hy.nullable (fun t h => nomatch h) fun t ht y hy =>
      Token.ofDraft?_of_reordered (hdates t ht) hy
  unfold ofFields?
  show (["clientId", "clientSecret", "accessTokenUrl", "scope", "authenticationResponse"].mapM
    (Draft.slotOf (fieldDrafts fields)) >>= _) = _
  simp only [List.mapM_cons, List.mapM_nil, hid, hsecret, hurl, hscope, htoken]
  show (Slot.nullable Draft.text? x.toDraft >>= fun scope =>
    Slot.nullable Token.ofDraft? y.toDraft >>= fun token =>
      some (oauth ⟨client.id, client.secret, client.tokenUrl, scope, token⟩)) = _
  rw [ofText?_of_reordered hx, htoken']
  rfl

theorem ofFields?_apiKey_of_reordered {name : String} {value : Secret} {place : KeyPlace}
    {lead : Option String} {fields : List (String × Json)}
    (h : Reordered (apiKey name value place lead).toJson (.obj fields)) :
    ofFields? .apiKey (.obj (fieldDrafts fields)) = some (apiKey name value place lead) := by
  have hname := h.slotOf_str "key" rfl
  have hvalue := h.slotOf_str "value" rfl
  have hplace := h.slotOf_str "addTo" rfl
  obtain ⟨x, hx, hlead⟩ := h.slotOf "headerPrefix" rfl
  unfold ofFields?
  show (["key", "value", "addTo", "headerPrefix"].mapM (Draft.slotOf (fieldDrafts fields)) >>= _) = _
  simp only [List.mapM_cons, List.mapM_nil, hname, hvalue, hplace, hlead]
  show (KeyPlace.ofWord? place.word >>= fun place =>
    Slot.nullable Draft.text? x.toDraft >>= fun lead => some (apiKey name value place lead)) = _
  rw [ofWord?_word, ofText?_of_reordered hx]
  rfl

theorem ofFields?_basic_of_reordered {username : String} {password : Secret}
    {fields : List (String × Json)}
    (h : Reordered (basic username password).toJson (.obj fields)) :
    ofFields? .basic (.obj (fieldDrafts fields)) = some (basic username password) := by
  have husername := h.slotOf_str "username" rfl
  have hpassword := h.slotOf_str "password" rfl
  unfold ofFields?
  show (["username", "password"].mapM (Draft.slotOf (fieldDrafts fields)) >>= _) = _
  simp only [List.mapM_cons, List.mapM_nil, husername, hpassword]
  rfl

theorem ofFields?_bearer_of_reordered {token : Secret} {fields : List (String × Json)}
    (h : Reordered (bearer token).toJson (.obj fields)) :
    ofFields? .bearer (.obj (fieldDrafts fields)) = some (bearer token) := by
  have htoken := h.slotOf_str "bearerToken" rfl
  unfold ofFields?
  show (["bearerToken"].mapM (Draft.slotOf (fieldDrafts fields)) >>= _) = _
  simp only [List.mapM_cons, List.mapM_nil, htoken]
  rfl

/-- **A stored credential is read back**, in whatever order its entries stand. -/
theorem ofDraft?_of_reordered {c : Credential} (hdates : c.DatesReadBack) {j : Json}
    (h : Reordered c.toJson j) : ofDraft? j.toDraft = some c := by
  have hfields : ∃ fields, j = .obj fields := by cases c <;> exact h.exists_fields
  obtain ⟨fields, rfl⟩ := hfields
  have htag : (fields.filter fun f => f.1 == tagName) = [(tagName, .str c.kind.word)] := by
    have hentry : ∃ y, Reordered (.str c.kind.word) y ∧
        (fields.filter fun f => f.1 == tagName) = [(tagName, y)] := by
      cases c <;> exact h.entry rfl
    obtain ⟨y, hy, hfields⟩ := hentry
    rw [hfields, hy.str]
  rw [ofDraft?_of_tag htag]
  cases c with
  | none => rfl
  | bearer token => exact ofFields?_bearer_of_reordered h
  | basic username password => exact ofFields?_basic_of_reordered h
  | apiKey name value place lead => exact ofFields?_apiKey_of_reordered h
  | oauth client => exact ofFields?_oauth_of_reordered hdates h

/-- A stored credential fits into a document. -/
theorem fits_toJson (c : Credential) : c.toJson.fits Read.maxDepth = true := by
  cases c with
  | apiKey name value place lead => cases lead <;> rfl
  | oauth client =>
    obtain ⟨id, secret, tokenUrl, scope, token⟩ := client
    cases token with
    | none => cases scope <;> rfl
    | some t =>
      obtain ⟨secret, expiresAt, issuedAt⟩ := t
      cases scope <;> cases expiresAt <;> rfl
  | none | bearer | basic => rfl

/-- **The text of a stored credential is read back**, in whatever order its entries stand. -/
theorem ofText?_print {c : Credential} (hdates : c.DatesReadBack) {j : Json}
    (h : Reordered c.toJson j) : (Read.document? j.print).bind ofDraft? = some c := by
  rw [document?_print (h.fits c.fits_toJson), Option.bind_some, ofDraft?_of_reordered hdates h]

end Credential

end Relay
