/-
# Snapshots and secrets

A snapshot should be the same whatever the secrets of the credential are. A credential in a
header is masked as a whole, so there it is. An API key in the query is masked where its
name is found, and the name is looked for as it is written in the URL, where it has been
form-encoded: so the snapshot is free of the key exactly if every character of the trimmed
name stands for itself in a form.

Key definitions: `Credential.SameButSecrets`, `Credential.PlainName`.
Key theorems: `Rest.wellFormed_build`, `Redaction.urlChars_appendPair`,
`Connection.snapshot_apiKey_eq_iff`, `Connection.snapshot_eq_of_plainName`,
`Connection.snapshot_secretFree_iff`.
-/
import Relay.Connection
import Relay.Connector.Rest
import Relay.Proofs.Url

namespace Relay

open Text Url

/-! ### Requests of the REST connector -/

/-- **What the REST connector asks for is well formed.** -/
theorem Rest.wellFormed_build {a : Action} {ds : Datasource} {i : Invocation} {r : Request}
    (h : Rest.build a ds i = .ok r) : r.url.WellFormed := by
  obtain ⟨url, hurl, h⟩ := except_bind_eq_ok_iff.mp h
  obtain ⟨body, -, h⟩ := except_bind_eq_ok_iff.mp h
  cases h
  obtain ⟨page, -, hurl⟩ := except_bind_eq_ok_iff.mp hurl
  cases page with
  | some page => exact wellFormed_joinUrl hurl
  | none =>
    obtain ⟨base, hbase, hurl⟩ := except_bind_eq_ok_iff.mp hurl
    cases hurl
    exact wellFormed_appendQuery (wellFormed_joinUrl hbase) _ _

/-! ### Credentials that differ in their secrets -/

namespace Credential

/-- The credentials differ in nothing but secrets. -/
def SameButSecrets (x y : Option Credential) : Prop := x.map masked = y.map masked

instance (x y : Option Credential) : Decidable (SameButSecrets x y) :=
  inferInstanceAs (Decidable (_ = _))

/-- If the credential is an API key that goes into the query, forms write its name as it
is. -/
def PlainName : Option Credential → Prop
  | some (.apiKey name _ .query _) => ∀ c ∈ (trim name).toList, Percent.isFormSafe c = true
  | _ => True

theorem sameButSecrets_apiKey {name : String} {value : Secret} {place : KeyPlace}
    {lead : Option String} {y : Option Credential}
    (h : SameButSecrets (some (.apiKey name value place lead)) y) :
    ∃ value', y = some (.apiKey name value' place lead) := by
  unfold SameButSecrets at h
  cases y with
  | none => cases h
  | some y =>
    cases y with
    | apiKey name' value' place' lead' =>
      cases h
      exact ⟨value', rfl⟩
    | none => cases h
    | bearer token => cases h
    | basic username password => cases h
    | oauth client => cases h

end Credential

/-! ### What a form makes of a name -/

namespace Url.Percent

theorem not_blank_of_isFormSafe {c : Char} (h : isFormSafe c = true) : isBlankChar c = false := by
  have small : ∀ n < 128, isFormSafe (Char.ofNat n) = true →
      isBlankChar (Char.ofNat n) = false := by
    decide
  have hc := small c.toNat (toNat_lt_of_isFormSafe h)
  rw [Char.ofNat_toNat] at hc
  exact hc h

/-- No character of a form is blank. -/
theorem not_blank_of_mem_formEncode {cs : List Char} {c : Char} (h : c ∈ formEncode cs) :
    isBlankChar c = false := by
  rcases mem_formEncode h with hsafe | rfl | hescape
  · exact not_blank_of_isFormSafe hsafe
  · decide
  · have hnone : escapes.any isBlankChar = false := by decide
    exact Bool.eq_false_iff.mpr (List.any_eq_false.mp hnone c hescape)

/-- A form keeps a text, up to the case of its letters, exactly if every character of the
text is safe. -/
theorem lowerChars_formEncode_eq_iff : ∀ cs : List Char,
    lowerChars (formEncode cs) = lowerChars cs ↔ ∀ c ∈ cs, isFormSafe c = true
  | [] => by simp [formEncode]
  | c :: cs => by
    refine ⟨fun h => ?_, fun h => by rw [formEncode_eq_self h]⟩
    rw [formEncode_cons] at h
    by_cases hspace : c = ' '
    · subst hspace
      exact absurd (List.cons.inj h).1 (by decide)
    · cases hsafe : isFormSafe c with
      | true =>
        have hc : formChar c = [c] := by rw [formChar, if_neg hspace, if_pos hsafe]
        rw [hc] at h
        have htail := (lowerChars_formEncode_eq_iff cs).mp (List.cons.inj h).2
        exact List.forall_mem_cons.mpr ⟨hsafe, htail⟩
      | false =>
        -- An escape has three characters, and nothing behind it gets shorter.
        obtain ⟨x, y, rest, hc⟩ := formChar_of_unsafe hspace hsafe
        have hlength := congrArg List.length h
        have hle := length_le_formEncode cs
        simp only [hc, lowerChars, List.length_map, List.length_append, List.length_cons] at hlength
        omega

example : lowerChars (formEncode "api key".toList) = "api+key".toList := by decide

end Url.Percent

/-! ### The name in the URL -/

namespace Redaction

/-- A policy for one query name finds a form by its name exactly if the name is written as
it is. -/
theorem hidesQuery_formEncode_iff (name : String) :
    (withQuery name {}).hidesQuery (String.ofList (Percent.formEncode (trim name).toList)) = true ↔
      ∀ c ∈ (trim name).toList, Percent.isFormSafe c = true := by
  have hfold : foldName (String.ofList (Percent.formEncode (trim name).toList)) =
      String.ofList (lowerChars (Percent.formEncode (trim name).toList)) := by
    rw [foldName, trim, lower, String.toList_ofList, String.toList_ofList,
      trimChars_of_not_blank fun c hc => Percent.not_blank_of_mem_formEncode hc]
  rw [← Percent.lowerChars_formEncode_eq_iff, hidesQuery, hfold]
  show [foldName name].contains _ = true ↔ _
  rw [List.contains_iff_mem, List.mem_singleton, foldName, lower]
  exact ⟨fun h => by simpa using congrArg String.toList h, fun h => by rw [h]⟩

/-- One more pair is masked on its own, behind what is shown of the old query. -/
theorem queryText_append {r : Redaction} {pair : List Char} (hpair : '&' ∉ pair)
    (old : List Char) :
    r.queryText (old ++ (if old.isEmpty then [] else ['&']) ++ pair) =
      r.queryText old ++ (if old.isEmpty then [] else ['&']) ++ r.pair pair := by
  unfold queryText
  rw [pieces_append_last hpair, List.map_append, List.map_singleton]
  cases old with
  | nil => rfl
  | cons c cs =>
    have hne : (pieces '&' (c :: cs)).map r.pair ≠ [] := by
      rw [ne_eq, List.map_eq_nil_iff]
      exact pieces_ne_nil '&' (c :: cs)
    exact join_append_singleton ['&'] (r.pair pair) hne

/-- In the URL, the pair of the form is masked if its name is found. -/
theorem pair_formPair (r : Redaction) (name value : String) :
    r.pair (Percent.formPair name value) =
      if r.hidesQuery (String.ofList (Percent.formEncode name.toList)) then
        Percent.formEncode name.toList ++ '=' :: redacted.toList
      else Percent.formPair name value := by
  have hname : '=' ∉ Percent.formEncode name.toList :=
    Percent.not_mem_formEncode (by decide) (by decide) (by decide) _
  rw [pair, Percent.formPair, cut_append_cons _ hname]

/-- What stands between the first question mark and the first hash behind it is masked, and
nothing else. -/
theorem urlChars_parts {r : Redaction} (hr : r.query ≠ []) {base query : List Char}
    (hbase : '?' ∉ base) (hquery : '#' ∉ query) (fragment : Option String) :
    r.urlChars (base ++ '?' :: (query ++ printFragment fragment)) =
      base ++ '?' :: (r.queryText query ++ printFragment fragment) := by
  rw [urlChars, if_neg (by rwa [List.isEmpty_iff]), cut_append_cons _ hbase]
  cases fragment with
  | none =>
    simp only [printFragment, List.append_nil, cut_of_not_mem hquery]
  | some f =>
    simp only [printFragment, cut_append_cons _ hquery]

/-- In a well-formed URL this is the query. -/
theorem urlChars_print {r : Redaction} (hr : r.query ≠ []) {u : Url} (hu : u.WellFormed)
    {q : String} (hq : u.query = some q) :
    r.urlChars u.print.toList =
      u.printBase ++ '?' :: (r.queryText q.toList ++ printFragment u.fragment) := by
  have hprint : u.print.toList = u.printBase ++ '?' :: (q.toList ++ printFragment u.fragment) := by
    rw [print, String.toList_ofList, hq, printQuery, List.append_assoc, List.cons_append]
  rw [hprint, urlChars_parts hr hu.base.not_mem (hu.query q hq)]

/-- **What is shown of a URL with one more pair**: everything in front of the query, the old
query masked, the pair masked, the fragment. -/
theorem urlChars_appendPair {r : Redaction} (hr : r.query ≠ []) {u : Url} (hu : u.WellFormed)
    (name value : String) :
    r.urlChars (u.appendPair name value).print.toList =
      u.printBase ++ '?' :: (r.queryText (u.query.getD "").toList ++
        (if (u.query.getD "").toList.isEmpty then [] else ['&']) ++
        r.pair (Percent.formPair name value) ++ printFragment u.fragment) := by
  have hpair : '&' ∉ Percent.formPair name value :=
    Percent.not_mem_formPair (by decide) (by decide) (by decide) (by decide) name value
  rw [urlChars_print hr (wellFormed_appendPair hu name value) rfl, String.toList_ofList,
    queryText_append hpair]
  rfl

end Redaction

/-! ### Snapshots -/

namespace Connection

variable {r : Request}

/-- What has to be hidden does not depend on secrets. -/
theorem redaction_eq {x y : Option Credential} (h : Credential.SameButSecrets x y) :
    Redaction.ofCredential x = Redaction.ofCredential y := by
  have hmasked (z : Option Credential) :
      Redaction.ofCredential (z.map Credential.masked) = Redaction.ofCredential z := by
    rcases z with _ | _ | _ | _ | ⟨_, _, _ | _, _⟩ | _ <;> rfl
  rw [← hmasked x, h, hmasked y]

/-- The headers that are shown do not depend on secrets. -/
theorem auditHeaders_eq {x y : Option Credential} (h : Credential.SameButSecrets x y)
    (v v' : Nat) : auditHeaders ⟨v, x⟩ r = auditHeaders ⟨v', y⟩ r := by
  have hmasked (w : Nat) (z : Option Credential) :
      auditHeaders ⟨0, z.map Credential.masked⟩ r = auditHeaders ⟨w, z⟩ r := by
    rcases z with _ | _ | _ | _ | ⟨_, _, _ | _, _⟩ | _ <;> rfl
  rw [← hmasked v x, h, hmasked v' y]

/-- Two snapshots may differ in the URL only. -/
theorem snapshot_eq_iff {x y : Option Credential} (h : Credential.SameButSecrets x y)
    (v v' : Nat) (inserted : List Inserted) :
    snapshot ⟨v, x⟩ r inserted = snapshot ⟨v', y⟩ r inserted ↔
      (Redaction.ofCredential x).url (outboundUrl ⟨v, x⟩ r).print =
        (Redaction.ofCredential y).url (outboundUrl ⟨v', y⟩ r).print := by
  constructor
  · exact fun heq => congrArg Snapshot.url heq
  · intro heq
    unfold snapshot Snapshot.capture redaction
    rw [heq, redaction_eq h, auditHeaders_eq h v v']

/-- The URL that is shown for an API key in the query. -/
theorem url_apiKey (hr : r.url.WellFormed) (v : Nat) (name : String) (value : Secret)
    (lead : Option String) :
    (Redaction.ofCredential (some (.apiKey name value .query lead))).urlChars
        (outboundUrl ⟨v, some (.apiKey name value .query lead)⟩ r).print.toList =
      r.url.printBase ++ '?' ::
        ((Redaction.withQuery name {}).queryText (r.url.query.getD "").toList ++
        (if (r.url.query.getD "").toList.isEmpty then [] else ['&']) ++
        (Redaction.withQuery name {}).pair (Percent.formPair (trim name) value.text) ++
        printFragment r.url.fragment) :=
  Redaction.urlChars_appendPair (List.cons_ne_nil _ _) hr (trim name) value.text

/-- Snapshots of two keys under one name in the query are the same if the name is found, and
else if the keys are the same in a form. -/
theorem snapshot_apiKey_eq_iff (hr : r.url.WellFormed) (v v' : Nat) (name : String)
    (value value' : Secret) (lead : Option String) (inserted : List Inserted) :
    snapshot ⟨v, some (.apiKey name value .query lead)⟩ r inserted =
        snapshot ⟨v', some (.apiKey name value' .query lead)⟩ r inserted ↔
      Credential.PlainName (some (.apiKey name value .query lead)) ∨
        Percent.formEncode value.text.toList = Percent.formEncode value'.text.toList := by
  have hsame : Credential.SameButSecrets (some (.apiKey name value .query lead))
      (some (.apiKey name value' .query lead)) := rfl
  rw [snapshot_eq_iff hsame, Redaction.url, Redaction.url, url_apiKey hr, url_apiKey hr,
    Redaction.pair_formPair, Redaction.pair_formPair, String.ofList_inj]
  show _ ↔ (∀ c ∈ (trim name).toList, Percent.isFormSafe c = true) ∨ _
  by_cases hplain : ∀ c ∈ (trim name).toList, Percent.isFormSafe c = true
  · have hfound := (Redaction.hidesQuery_formEncode_iff name).mpr hplain
    rw [if_pos hfound, if_pos hfound]
    exact ⟨fun _ => .inl hplain, fun _ => rfl⟩
  · have hlost := mt (Redaction.hidesQuery_formEncode_iff name).mp hplain
    rw [if_neg hlost, if_neg hlost]
    simp [hplain, Percent.formPair]

/-- Only an API key goes into the URL. -/
theorem query_or_outboundUrl_eq (x : Option Credential) :
    (∃ name value lead, x = some (.apiKey name value .query lead)) ∨
      ∀ v, outboundUrl ⟨v, x⟩ r = r.url := by
  rcases x with _ | _ | _ | _ | ⟨name, value, _ | _, lead⟩ | ⟨_, _, _, _, _ | _⟩
  case some.apiKey.query => exact .inl ⟨name, value, lead, rfl⟩
  all_goals exact .inr fun _ => rfl

/-- **Snapshots are free of secrets** that go into headers, and of API keys whose name is
written as it is. -/
theorem snapshot_eq_of_plainName (hr : r.url.WellFormed) {x y : Option Credential}
    (h : Credential.SameButSecrets x y) (hplain : Credential.PlainName x) (v v' : Nat)
    (inserted : List Inserted) :
    snapshot ⟨v, x⟩ r inserted = snapshot ⟨v', y⟩ r inserted := by
  rcases query_or_outboundUrl_eq (r := r) x with ⟨name, value, lead, rfl⟩ | hx
  · obtain ⟨value', rfl⟩ := Credential.sameButSecrets_apiKey h
    exact (snapshot_apiKey_eq_iff hr v v' name value value' lead inserted).mpr (.inl hplain)
  · rcases query_or_outboundUrl_eq (r := r) y with ⟨name, value, lead, rfl⟩ | hy
    · obtain ⟨value', rfl⟩ := Credential.sameButSecrets_apiKey h.symm
      exact (snapshot_apiKey_eq_iff hr v v' name value' value lead inserted).mpr (.inl hplain)
    · rw [snapshot_eq_iff h, redaction_eq h, hx v, hy v']

/-- A longer key passes where a key passes. -/
theorem check_longer {accepted : List Credential.Kind} {name : String} {value : Secret}
    {place : KeyPlace} {lead : Option String}
    (h : Credential.check accepted (some (.apiKey name value place lead)) = .ok ()) :
    Credential.check accepted (some (.apiKey name ⟨value.text ++ "a"⟩ place lead)) = .ok () := by
  have whole (key : Secret) :
      Credential.missingPart? (.apiKey name key place lead) = none ↔
        isBlank name = false ∧ isBlank key.text = false := by
    show (if isBlank name then some "API key name"
      else if isBlank key.text then some "API key value" else none) = none ↔ _
    cases isBlank name <;> cases isBlank key.text <;> simp
  obtain ⟨hkind, hparts⟩ := Credential.check_eq_ok_iff.mp h
  refine Credential.check_eq_ok_iff.mpr ⟨hkind, ?_⟩
  rw [Credential.checkPresent_some_eq_ok_iff, whole] at hparts ⊢
  refine ⟨hparts.1, ?_⟩
  rw [isBlank, String.toList_append, List.all_append]
  exact Bool.and_false _

/-- **Snapshots are free of secrets exactly as far as names are plain.** Of a credential that
passes the check, the snapshots of any request are the same for all credentials that pass and
differ from it in nothing but secrets, exactly if it does not go into the query or every
character of its trimmed name stands for itself in a form. -/
theorem snapshot_secretFree_iff {accepted : List Credential.Kind} {x : Option Credential}
    (hx : Credential.check accepted x = .ok ()) (hr : r.url.WellFormed)
    (inserted : List Inserted) :
    (∀ y v v', Credential.check accepted y = .ok () → Credential.SameButSecrets x y →
        snapshot ⟨v, x⟩ r inserted = snapshot ⟨v', y⟩ r inserted) ↔
      Credential.PlainName x := by
  refine ⟨fun hfree => ?_, fun hplain y v v' _ hsame =>
    snapshot_eq_of_plainName hr hsame hplain v v' inserted⟩
  rcases x with _ | _ | _ | _ | ⟨name, value, _ | _, lead⟩ | _
  case some.apiKey.query =>
    have heq := hfree (some (.apiKey name ⟨value.text ++ "a"⟩ .query lead)) 0 0
      (check_longer hx) rfl
    rcases (snapshot_apiKey_eq_iff hr 0 0 name value _ lead inserted).mp heq with hplain | hform
    · exact hplain
    · have hlength := congrArg List.length hform
      rw [String.toList_append, Percent.formEncode_append, List.length_append] at hlength
      have hone : (Percent.formEncode "a".toList).length = 1 := by decide
      omega
  all_goals exact trivial

/-- A request without a query. -/
def items : Request :=
  { method := .get
    url := {
      scheme := "https"
      authority := some { host := some (.domain "x.test") }
      path := "/items" } }

theorem wellFormed_items : items.url.WellFormed := by
  have hbase : items.url.printBase.any isPathEnd = false := by decide
  exact ⟨unmarked_of_any id hbase, fun q hq => nomatch hq⟩

/-- A key under a name of letters and an underscore leaves no trace. -/
theorem snapshot_secretFree_underscore :
    Credential.check [.apiKey] (some (.apiKey "api_key" ⟨"s3cret"⟩ .query none)) = .ok () ∧
      items.url.WellFormed ∧
      ∀ y v v', Credential.check [.apiKey] y = .ok () →
        Credential.SameButSecrets (some (.apiKey "api_key" ⟨"s3cret"⟩ .query none)) y →
        snapshot ⟨v, some (.apiKey "api_key" ⟨"s3cret"⟩ .query none)⟩ items [] =
          snapshot ⟨v', y⟩ items [] := by
  have hx : Credential.check [.apiKey] (some (.apiKey "api_key" ⟨"s3cret"⟩ .query none)) = .ok () :=
    rfl
  have hsafe : (trim "api_key").toList.all Percent.isFormSafe = true := by decide
  have hplain : Credential.PlainName (some (.apiKey "api_key" ⟨"s3cret"⟩ .query none)) :=
    List.all_eq_true.mp hsafe
  exact ⟨hx, wellFormed_items, (snapshot_secretFree_iff hx wellFormed_items []).mpr hplain⟩

/-- Under a name with a space two keys leave two snapshots. -/
theorem snapshot_not_secretFree_space :
    Credential.check [.apiKey] (some (.apiKey "api key" ⟨"s3cret"⟩ .query none)) = .ok () ∧
      Credential.check [.apiKey] (some (.apiKey "api key" ⟨"other"⟩ .query none)) = .ok () ∧
      Credential.SameButSecrets (some (.apiKey "api key" ⟨"s3cret"⟩ .query none))
        (some (.apiKey "api key" ⟨"other"⟩ .query none)) ∧
      snapshot ⟨0, some (.apiKey "api key" ⟨"s3cret"⟩ .query none)⟩ items [] ≠
        snapshot ⟨0, some (.apiKey "api key" ⟨"other"⟩ .query none)⟩ items [] := by
  refine ⟨rfl, rfl, rfl, fun heq => ?_⟩
  rcases (snapshot_apiKey_eq_iff wellFormed_items 0 0 "api key" _ _ none []).mp heq with
    hplain | hform
  · have hunsafe : (trim "api key").toList.all Percent.isFormSafe = false := by decide
    rw [List.all_eq_true.mpr hplain] at hunsafe
    cases hunsafe
  · revert hform
    decide

end Connection

end Relay
