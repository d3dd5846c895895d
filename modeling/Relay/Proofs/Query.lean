/-
# Queries are read back

A query is cut into pieces at each `&`, and a piece that is not empty is a pair. The pair
that is appended has no separator in it but the one between name and value, so it is cut out
of the query again, behind the pairs that were there, whatever the query was: none, empty, or
with a separator at its end. Its name and its value are forms, which are read back.

Key definitions: `readPair`, `filledPieces`.
Key theorems: `readPair_formPair`, `pairs_appendPair`, `pairs_appendEncoded`,
`appendQuery_read_back`.
-/
import Relay.Proofs.Url

namespace Relay.Url

open Relay.Text

/-! ### Pairs -/

/-- The pair that a piece of a query is. -/
def readPair (piece : List Char) : String × String :=
  (Percent.formDecode (cut '=' piece).1, Percent.formDecode ((cut '=' piece).2.getD []))

/-- The pieces of a query that are not empty. -/
def filledPieces (query : List Char) : List (List Char) :=
  (pieces '&' query).filter (!·.isEmpty)

theorem pairs_eq (u : Url) : u.pairs = (filledPieces (u.query.getD "").toList).map readPair := rfl

theorem readPair_formPair (name value : String) :
    readPair (Percent.formPair name value) = (name, value) := by
  have hname : '=' ∉ Percent.formEncode name.toList :=
    Percent.not_mem_formEncode (by decide) (by decide) (by decide) _
  rw [readPair, Percent.formPair, cut_append_cons _ hname]
  exact Prod.ext (Percent.formDecode_formEncode name) (Percent.formDecode_formEncode value)

/-- One more piece comes behind the others, also behind an empty one. -/
theorem filledPieces_append {piece : List Char} (hpiece : '&' ∉ piece) (hne : piece ≠ [])
    (old : List Char) :
    filledPieces (old ++ (if old.isEmpty then [] else ['&']) ++ piece) =
      filledPieces old ++ [piece] := by
  have hlast : [piece].filter (!·.isEmpty) = [piece] := by
    cases piece with
    | nil => exact absurd rfl hne
    | cons c cs => rfl
  unfold filledPieces
  rw [pieces_append_last hpiece, List.filter_append, hlast]
  cases old with
  | nil => rfl
  | cons c cs => rfl

variable (u : Url)

theorem pairs_appendPair (name value : String) :
    (u.appendPair name value).pairs = u.pairs ++ [(name, value)] := by
  have hamp : '&' ∉ Percent.formPair name value :=
    Percent.not_mem_formPair (by decide) (by decide) (by decide) (by decide) name value
  have hne : Percent.formPair name value ≠ [] := by
    rw [Percent.formPair]
    exact List.append_ne_nil_of_right_ne_nil _ (List.cons_ne_nil _ _)
  have hquery : ((u.appendPair name value).query.getD "").toList =
      (u.query.getD "").toList ++ (if (u.query.getD "").toList.isEmpty then [] else ['&'])
        ++ Percent.formPair name value := String.toList_ofList
  rw [pairs_eq, pairs_eq, hquery, filledPieces_append hamp hne, List.map_append,
    List.map_singleton, readPair_formPair]

theorem pairs_appendEncoded : ∀ (pairs : List (String × String)) (u : Url),
    (u.appendEncoded pairs).pairs = u.pairs ++ pairs
  | [], u => (List.append_nil u.pairs).symm
  | p :: ps, u => by
    have hrest := pairs_appendEncoded ps (u.appendPair p.1 p.2)
    rw [pairs_appendPair, List.append_assoc, List.singleton_append] at hrest
    exact hrest

/-- Nothing but the query is touched. -/
theorem appendEncoded_eq : ∀ (pairs : List (String × String)) (u : Url),
    ∃ query, u.appendEncoded pairs = { u with query }
  | [], u => ⟨u.query, rfl⟩
  | p :: ps, u => appendEncoded_eq ps (u.appendPair p.1 p.2)

/-! ### Parameters -/

open Request

/-- The parameters that have a name when it is trimmed. -/
theorem queryPairs_eq (parameters : List Property) :
    queryPairs parameters =
      (parameters.filter fun p => trim p.key ≠ "").map fun p => (trim p.key, p.value) := by
  have hnamed : ∀ p ∈ parameters, (!p.isBlank) = decide (trim p.key ≠ "") := by
    intro p _
    rw [Bool.eq_iff_iff, Bool.not_eq_true', Bool.eq_false_iff, decide_eq_true_iff]
    exact not_congr (isBlank_iff_trim p.key)
  rw [queryPairs, Property.stripBlank, List.filter_congr hnamed]

/-- Without pairs nothing is appended, so both cases are one. -/
theorem appendQuery_encoded (parameters : List Property) :
    appendQuery u parameters true = u.appendEncoded (queryPairs parameters) := by
  unfold appendQuery
  cases queryPairs parameters with
  | nil => rfl
  | cons p ps => rfl

/-- **Encoded parameters are read back.** Behind the pairs that the query had come, in order,
the trimmed name and the value of each parameter that has a name, as they were given, whatever
characters they hold. Scheme, authority, path and fragment are the same, and a URL that parts
where it is written still does. If no parameter has a name, the URL is the same. -/
theorem appendQuery_read_back (u : Url) (parameters : List Property) :
    (appendQuery u parameters true).pairs = u.pairs ++
      (parameters.filter fun p => trim p.key ≠ "").map (fun p => (trim p.key, p.value)) ∧
    (∃ query, appendQuery u parameters true = { u with query }) ∧
    (u.WellFormed → (appendQuery u parameters true).WellFormed) ∧
    ((∀ p ∈ parameters, trim p.key = "") → appendQuery u parameters true = u) := by
  refine ⟨?_, ?_, fun hu => wellFormed_appendQuery hu parameters true, fun hblank => ?_⟩
  · rw [appendQuery_encoded, pairs_appendEncoded, queryPairs_eq]
  · rw [appendQuery_encoded]
    exact appendEncoded_eq _ u
  · have hnone : (parameters.filter fun p => trim p.key ≠ "") = [] := by
      rw [List.filter_eq_nil_iff]
      intro p hp hnamed
      exact of_decide_eq_true hnamed (hblank p hp)
    rw [appendQuery_encoded, queryPairs_eq, hnone]
    rfl

/-- A query that ends in a separator. -/
def listing : Url :=
  { scheme := "https"
    authority := some { host := some (.domain "x.test") }
    path := "/items"
    query := some "page=2&"
    fragment := some "top" }

theorem wellFormed_listing : listing.WellFormed where
  base := unmarked_of_any id (show listing.printBase.any isPathEnd = false by decide)
  query q hq := by
    cases hq
    decide

/-- Name and value hold what parts a URL; one parameter has no name. -/
theorem appendQuery_read_back_separators :
    (appendQuery listing [⟨"\t", "x"⟩, ⟨" q&=", "a b#%+é"⟩] true).pairs =
      [("page", "2"), ("q&=", "a b#%+é")] ∧
    (appendQuery listing [⟨"\t", "x"⟩, ⟨" q&=", "a b#%+é"⟩] true).WellFormed ∧
    appendQuery listing [⟨"\t", "x"⟩] true = listing := by
  obtain ⟨hpairs, -, hwell, -⟩ :=
    appendQuery_read_back listing [⟨"\t", "x"⟩, ⟨" q&=", "a b#%+é"⟩]
  have hpieces : filledPieces (listing.query.getD "").toList = [Percent.formPair "page" "2"] := by
    decide
  have hold : listing.pairs = [("page", "2")] := by
    rw [pairs_eq, hpieces, List.map_singleton, readPair_formPair]
  refine ⟨?_, hwell wellFormed_listing, ?_⟩
  · rw [hpairs, hold]
    rfl
  · exact (appendQuery_read_back listing [⟨"\t", "x"⟩]).2.2.2 (by decide)

end Relay.Url
