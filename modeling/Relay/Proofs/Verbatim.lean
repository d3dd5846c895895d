/-
# Parameters that are not encoded

Parameters that are not to be encoded are put behind the query as they are, and the whole is
written as a query once more. Writing takes one character after the other. It leaves every
character alone that a written query has, the percent signs too, so the query that was there
stays as it is and nothing in it is encoded twice. Of what the parameters bring, a character
that no query has becomes an escape, and tabs and line ends are dropped; so no hash gets into
the query, and nothing behind it or in front of it is touched. Parameters that have only
characters of a query are written letter for letter.

Key definitions: `Url.Literal`, `Url.written`, `Url.Web`, `Url.former`.
Key theorems: `written_append`, `written_eq_self`, `web_of_webUrl`, `query_appendVerbatim`,
`appendQuery_stays_inside`.
-/
import Relay.Proofs.Joining
import Relay.Proofs.Query

namespace Relay.Url

open Relay.Text

/-! ### Writing a query -/

/-- Each character may stand in the query of a web URL as it is. -/
def Literal (cs : List Char) : Prop := ∀ c ∈ cs, Percent.specialQuerySet c = false

instance (cs : List Char) : Decidable (Literal cs) :=
  decidable_of_iff (cs.all (!Percent.specialQuerySet ·) = true) (by simp [Literal])

/-- How a text is written into the query of a web URL. -/
def written (cs : List Char) : List Char :=
  Percent.encode Percent.specialQuerySet (cs.filter (!isTabOrNewline ·))

theorem Literal.append {cs ds : List Char} (hc : Literal cs) (hd : Literal ds) :
    Literal (cs ++ ds) := fun c h => (List.mem_append.mp h).elim (hc c) (hd c)

theorem literal_escapes : Literal Percent.escapes := by decide

/-- **What is encoded for a query has characters of a query only.** -/
theorem literal_encodeQuery (cs : List Char) : Literal (encodeQuery true cs).toList := by
  intro c hc
  rw [encodeQuery, if_pos rfl, String.toList_ofList] at hc
  rcases Percent.mem_encode hc with ⟨-, hset⟩ | hescape
  · exact hset
  · exact literal_escapes c hescape

/-- So has a pair of a form. -/
theorem literal_formPair (name value : String) : Literal (Percent.formPair name value) := by
  have hsafe : ∀ n < 128, Percent.isFormSafe (Char.ofNat n) = true →
      Percent.specialQuerySet (Char.ofNat n) = false := by decide
  have hform (cs : List Char) : Literal (Percent.formEncode cs) := by
    intro c hc
    rcases Percent.mem_formEncode hc with h | rfl | hescape
    · have hlt : c.toNat < 128 := Percent.toNat_lt_of_isFormSafe h
      have hc := hsafe c.toNat hlt
      rw [Char.ofNat_toNat] at hc
      exact hc h
    · decide
    · exact literal_escapes c hescape
  have hequals : Literal ['='] := by decide
  exact (hform name.toList).append (hequals.append (hform value.toList))

theorem written_append (cs ds : List Char) : written (cs ++ ds) = written cs ++ written ds := by
  simp only [written, List.filter_append, Percent.encode_append]

/-- Tabs and line ends are none of the characters of a query. -/
theorem Literal.not_isTabOrNewline {cs : List Char} (h : Literal cs) :
    ∀ c ∈ cs, (!isTabOrNewline c) = true := by
  intro c hc
  have hkept : Percent.specialQuerySet c = false := h c hc
  rw [Bool.not_eq_true', Bool.eq_false_iff]
  intro htab
  rcases isTabOrNewline_cases htab with rfl | rfl | rfl
  all_goals exact absurd hkept (by decide)

/-- **What has characters of a query only is written letter for letter.** -/
theorem written_eq_self {cs : List Char} (h : Literal cs) : written cs = cs := by
  have hfilter : cs.filter (!isTabOrNewline ·) = cs := List.filter_eq_self.mpr h.not_isTabOrNewline
  rw [written, hfilter, Percent.encode_eq_self h]

/-- Texts that are joined are written one by one. -/
theorem written_join : ∀ ps : List (List Char),
    written (join ['&'] ps) = join ['&'] (ps.map written)
  | [] => rfl
  | [p] => rfl
  | p :: q :: ps => by
    have ih := written_join (q :: ps)
    have hamp : written ['&'] = ['&'] := written_eq_self (by decide)
    calc written (join ['&'] (p :: q :: ps))
        = written p ++ written ['&'] ++ written (join ['&'] (q :: ps)) := by
          rw [join, written_append, written_append]
      _ = written p ++ ['&'] ++ join ['&'] ((q :: ps).map written) := by rw [hamp, ih]
      _ = join ['&'] ((p :: q :: ps).map written) := rfl

/-! ### Web URLs -/

/-- A URL of http or https that parts where it is written and has characters of a query only
in its query. -/
structure Web (u : Url) : Prop extends WellFormed u where
  scheme : u.scheme = "http" ∨ u.scheme = "https"
  literal : Literal (u.query.getD "").toList

variable {u : Url}

theorem Web.isSpecial (hu : u.Web) : isSpecial u.scheme = true := by
  rcases hu.scheme with h | h
  all_goals
    rw [h]
    decide

/-- **What is read as a web URL is one.** -/
theorem web_of_webUrl {raw : String} (h : Request.webUrl raw = .ok u) : u.Web := by
  obtain ⟨hparse, hweb⟩ := Request.webUrl_eq_ok_iff.mp h
  obtain ⟨hspecial, rest, -, hrest⟩ := Request.afterSlashes?_of_webUrl h
  have hquery := (hasParts_of_afterSlashes? hspecial hrest).query
  refine ⟨wellFormed_of_parse? hparse, ?_, ?_⟩
  · simpa using hweb
  · rw [hquery]
    cases (cutPath ((rest.dropWhile (isSlash true)).dropWhile
      fun c => !isAuthorityEnd true c)).2.1 with
    | none => exact fun c hc => (nomatch hc)
    | some query => exact literal_encodeQuery query

theorem Web.appendPair (hu : u.Web) (name value : String) : (u.appendPair name value).Web := by
  refine ⟨wellFormed_appendPair hu.toWellFormed name value, hu.scheme, ?_⟩
  have hseparator : Literal (if (u.query.getD "").toList.isEmpty then [] else ['&']) := by
    split
    · decide
    · decide
  have hquery : ((u.appendPair name value).query.getD "").toList =
      (u.query.getD "").toList ++ (if (u.query.getD "").toList.isEmpty then [] else ['&'])
        ++ Percent.formPair name value := String.toList_ofList
  rw [hquery]
  exact (hu.literal.append hseparator).append (literal_formPair name value)

theorem Web.appendEncoded (hu : u.Web) (pairs : List (String × String)) :
    (u.appendEncoded pairs).Web := by
  unfold Url.appendEncoded
  induction pairs generalizing u with
  | nil => exact hu
  | cons p pairs ih => exact ih (hu.appendPair p.1 p.2)

theorem Web.appendVerbatim (hu : u.Web) (pairs : List (String × String)) :
    (u.appendVerbatim pairs).Web := by
  refine ⟨wellFormed_appendVerbatim hu.toWellFormed pairs, hu.scheme, ?_⟩
  unfold Url.appendVerbatim setQuery
  rw [hu.isSpecial]
  exact literal_encodeQuery _

/-- **A web URL stays one**, whatever is appended to its query. -/
theorem Web.appendQuery (hu : u.Web) (parameters : List Property) (encode : Bool) :
    (Request.appendQuery u parameters encode).Web := by
  unfold Request.appendQuery
  dsimp only
  split
  · exact hu
  · split
    · exact hu.appendEncoded _
    · exact hu.appendVerbatim _

/-! ### Behind a query -/

/-- The query as the text that parameters are put behind, if there is any. -/
def former (u : Url) : List String := if u.query.getD "" = "" then [] else [u.query.getD ""]

theorem map_former (u : Url) (pairs : List (List Char)) :
    (if (u.query.getD "").toList.isEmpty then pairs else (u.query.getD "").toList :: pairs) =
      u.former.map String.toList ++ pairs := by
  by_cases hempty : u.query.getD "" = ""
  · simp [former, hempty]
  · have hne : (u.query.getD "").toList.isEmpty = false := by simpa using hempty
    rw [hne]
    simp [former, hempty]

/-- The query begins with the one that was there. -/
theorem prefix_join_former (u : Url) (pairs : List (List Char)) :
    (u.query.getD "").toList <+: join ['&'] (u.former.map String.toList ++ pairs) := by
  by_cases hempty : u.query.getD "" = ""
  · rw [hempty]
    exact List.nil_prefix
  · rw [former, if_neg hempty]
    cases pairs with
    | nil => exact List.prefix_rfl
    | cons p ps =>
      show (u.query.getD "").toList <+: (u.query.getD "").toList ++ ['&'] ++ join ['&'] (p :: ps)
      rw [List.append_assoc]
      exact List.prefix_append _ _

/-- **The query stays as it is, and each pair behind it is written by itself.** -/
theorem query_appendVerbatim (hu : u.Web) (pairs : List (String × String)) :
    (u.appendVerbatim pairs).query = some (String.ofList (join ['&'] (u.former.map String.toList ++
      pairs.map fun p => written (p.1.toList ++ '=' :: p.2.toList)))) := by
  have hformer : (u.former.map String.toList).map written = u.former.map String.toList := by
    unfold former
    split
    · rfl
    · exact congrArg (fun cs => [cs]) (written_eq_self hu.literal)
  have hpairs : (pairs.map fun p => p.1.toList ++ '=' :: p.2.toList).map written =
      pairs.map fun p => written (p.1.toList ++ '=' :: p.2.toList) := by
    rw [List.map_map]
    rfl
  have hwritten (text : List Char) :
      (u.setQuery text).query = some (String.ofList (written text)) := by
    rw [setQuery, hu.isSpecial]
    rfl
  unfold appendVerbatim
  rw [hwritten, map_former, written_join, List.map_append, hformer, hpairs]

/-! ### Parameters -/

open Request

/-- The parameters that have a name. -/
def named (parameters : List Property) : List Property :=
  parameters.filter fun p => trim p.key ≠ ""

/-- The trimmed name, an equals sign and the value. -/
def pairText (p : Property) : String := trim p.key ++ "=" ++ p.value

theorem toList_pairText (p : Property) :
    (pairText p).toList = (trim p.key).toList ++ '=' :: p.value.toList := by
  simp [pairText]

theorem appendQuery_of_unnamed {parameters : List Property} (h : named parameters = [])
    (encode : Bool) : Request.appendQuery u parameters encode = u := by
  have hnone : queryPairs parameters = [] := by
    rw [queryPairs_eq]
    exact congrArg (List.map _) h
  rw [Request.appendQuery, hnone]
  rfl

/-- Where a parameter has a name, the query is the one that was there and the written
parameters behind it. -/
theorem query_appendQuery (hu : u.Web) {parameters : List Property} (h : named parameters ≠ []) :
    Request.appendQuery u parameters false = u.appendVerbatim (queryPairs parameters) ∧
    (Request.appendQuery u parameters false).query =
      some (String.ofList (join ['&'] (u.former.map String.toList ++
        (named parameters).map fun p => written (pairText p).toList))) := by
  have hpairs : queryPairs parameters = (named parameters).map fun p => (trim p.key, p.value) :=
    queryPairs_eq parameters
  have hsome : (queryPairs parameters).isEmpty = false := by
    rw [hpairs]
    simpa using h
  have happend : Request.appendQuery u parameters false =
      u.appendVerbatim (queryPairs parameters) := by
    rw [Request.appendQuery, hsome]
    rfl
  refine ⟨happend, ?_⟩
  rw [happend, query_appendVerbatim hu, hpairs, List.map_map]
  simp only [Function.comp_def, toList_pairText]

/-- **Parameters that are not encoded stay inside the query.** What is read as a web URL is one,
and stays one whatever is appended to it. To a web URL any parameters may be appended, with any
characters in their names and values: scheme, authority, path and fragment are the same, and the
query begins with the query that was there. If no parameter has a name, nothing changes.
Otherwise each that has one is written by itself behind the others; and if all that is written
has only characters of a query, the query is the one that was there, unless it was
empty, and the trimmed names and the values behind it, letter for letter. -/
theorem appendQuery_stays_inside :
    (∀ raw u, webUrl raw = .ok u → u.Web) ∧
    ∀ (u : Url) (parameters : List Property), u.Web →
      (∀ encode, (Request.appendQuery u parameters encode).Web) ∧
      (∃ query, Request.appendQuery u parameters false = { u with query }) ∧
      (u.query.getD "").toList <+:
        ((Request.appendQuery u parameters false).query.getD "").toList ∧
      (named parameters = [] → Request.appendQuery u parameters false = u) ∧
      (named parameters ≠ [] → (∀ p ∈ named parameters, Literal (pairText p).toList) →
        (Request.appendQuery u parameters false).query =
          some (joinText "&" (u.former ++ (named parameters).map pairText))) := by
  refine ⟨fun raw u h => web_of_webUrl h, fun u parameters hu =>
    ⟨fun encode => hu.appendQuery parameters encode, ?_⟩⟩
  by_cases hnone : named parameters = []
  · rw [appendQuery_of_unnamed hnone]
    exact ⟨⟨u.query, rfl⟩, List.prefix_rfl, fun _ => rfl, fun hsome => absurd hnone hsome⟩
  · obtain ⟨happend, hquery⟩ := query_appendQuery hu hnone
    refine ⟨?_, ?_, fun h => absurd h hnone, fun _ hliteral => ?_⟩
    · rw [happend]
      exact ⟨_, rfl⟩
    · rw [hquery, Option.getD_some, String.toList_ofList]
      exact prefix_join_former u _
    · have hsame : ((named parameters).map fun p => written (pairText p).toList) =
          ((named parameters).map pairText).map String.toList := by
        rw [List.map_map]
        exact List.map_congr_left fun p hp => written_eq_self (hliteral p hp)
      rw [hquery, hsame, ← List.map_append]
      rfl

/-- A hash and quotes in a value, and a value that is an escape already, behind a query that
ends in a separator. -/
theorem appendQuery_stays_inside_hash :
    (∃ query, Request.appendQuery listing [⟨" q ", "a#b \"é\""⟩] false = { listing with query }) ∧
    (Request.appendQuery listing [⟨" q ", "a,b:c%2F?"⟩, ⟨"\t", "x"⟩, ⟨"n", "1"⟩] false).query =
      some "page=2&&q=a,b:c%2F?&n=1" := by
  have hread : webUrl "https://x.test/items?page=2&#top" = .ok listing :=
    except_eq_ok_of_toOption (by decide +kernel)
  have hlisting : listing.Web := appendQuery_stays_inside.1 _ listing hread
  have hliteral : ∀ p ∈ named [⟨" q ", "a,b:c%2F?"⟩, ⟨"\t", "x"⟩, ⟨"n", "1"⟩],
      Literal (pairText p).toList := by
    decide
  refine ⟨(appendQuery_stays_inside.2 listing _ hlisting).2.1, ?_⟩
  exact (appendQuery_stays_inside.2 listing _ hlisting).2.2.2.2 (by decide) hliteral

end Relay.Url
