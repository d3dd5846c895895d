/-
# What is shown of a URL text

A URL text with a query parts into a base in front of the first question mark, the pairs
between that mark and the first hash behind it, and a fragment. Parting loses nothing, and
masking a pair brings none of the marks into it. So what is shown parts at the same places,
into the same base and fragment and as many pairs, each as it was or with a masked value. A
masked pair is masked as what it is, and pairs that differ in a hidden value are masked
alike.

Key definitions: `Redaction.Parted`, `Redaction.Masked`, `Redaction.SameButHidden`.
Key theorems: `exists_parted_iff`, `masked_pair`, `parted_url`, `url_masks`.
-/
import Mathlib.Data.List.Forall2
import Relay.Proofs.Masking

namespace Relay.Redaction

open Text Url

variable {r : Redaction} {s t : String} {base : List Char} {pairs : List (List Char)}
  {fragment : Option String}

/-! ### The parts of a URL text -/

/-- The text is a base without a question mark, the mark, pairs with `&` between them, and a
fragment behind the first hash, if there is one. -/
structure Parted (s : String) (base : List Char) (pairs : List (List Char))
    (fragment : Option String) : Prop where
  text : s.toList = base ++ '?' :: (join ['&'] pairs ++ printFragment fragment)
  base : '?' ∉ base
  nonempty : pairs ≠ []
  pairs : ∀ p ∈ pairs, '&' ∉ p ∧ '#' ∉ p

theorem Parted.eq (hs : Parted s base pairs fragment) (ht : Parted t base pairs fragment) :
    s = t :=
  String.toList_inj.mp (hs.text.trans ht.text.symm)

/-- Pairs without a mark make a query without one. -/
theorem hash_not_mem_join (h : ∀ p ∈ pairs, '&' ∉ p ∧ '#' ∉ p) : '#' ∉ join ['&'] pairs := by
  intro hmem
  rcases mem_of_mem_join hmem with hsep | ⟨p, hp, hhash⟩
  · exact absurd hsep (by decide)
  · exact (h p hp).2 hhash

/-- A query is the pairs that it is cut into. -/
theorem parted_pieces {query rest : List Char} (hs : s.toList = base ++ '?' :: rest)
    (hbase : '?' ∉ base) (hrest : rest = query ++ printFragment fragment) (hquery : '#' ∉ query) :
    Parted s base (pieces '&' query) fragment where
  text := by rw [hs, hrest, join_pieces]
  base := hbase
  nonempty := pieces_ne_nil '&' query
  pairs p hp := by
    refine ⟨not_mem_of_mem_pieces hp, fun hhash => hquery ?_⟩
    rw [← join_pieces '&' query]
    exact mem_join_of_mem hhash hp

/-- Every text with a question mark has these parts. -/
theorem exists_parted_iff :
    '?' ∈ s.toList ↔ ∃ base pairs fragment, Parted s base pairs fragment := by
  constructor
  · intro hmark
    obtain ⟨base, rest, hs, hbase⟩ := exists_cut_of_mem hmark
    by_cases hhash : '#' ∈ rest
    · obtain ⟨query, f, hrest, hquery⟩ := exists_cut_of_mem hhash
      have hfragment : rest = query ++ printFragment (some (String.ofList f)) := by
        rw [hrest, printFragment, String.toList_ofList]
      exact ⟨base, _, _, parted_pieces hs hbase hfragment hquery⟩
    · have hfragment : rest = rest ++ printFragment none := (List.append_nil rest).symm
      exact ⟨base, _, _, parted_pieces hs hbase hfragment hhash⟩
  · rintro ⟨base, pairs, fragment, h⟩
    rw [h.text]
    exact List.mem_append_right base List.mem_cons_self

/-! ### One pair -/

/-- What is shown of a pair. It is masked if its name, the text in front of the first `=`,
is on the list when trimmed and in lower case. -/
inductive Masked (r : Redaction) : List Char → List Char → Prop
  | hidden {name : List Char} (value : List Char) (hname : '=' ∉ name)
    (h : foldName (String.ofList name) ∈ r.query) :
    Masked r (name ++ '=' :: value) (name ++ '=' :: "****".toList)
  | shown {p : List Char}
    (h : ∀ name value, p = name ++ '=' :: value → '=' ∉ name →
      foldName (String.ofList name) ∉ r.query) :
    Masked r p p

/-- The pairs differ in nothing but a value that is hidden. -/
inductive SameButHidden (r : Redaction) : List Char → List Char → Prop
  | same (p : List Char) : SameButHidden r p p
  | hidden {name : List Char} (v w : List Char) (hname : '=' ∉ name)
    (h : foldName (String.ofList name) ∈ r.query) :
    SameButHidden r (name ++ '=' :: v) (name ++ '=' :: w)

theorem hidesQuery_iff {name : String} : r.hidesQuery name = true ↔ foldName name ∈ r.query :=
  List.contains_iff_mem

theorem pair_hidden {name : List Char} (value : List Char) (hname : '=' ∉ name)
    (h : foldName (String.ofList name) ∈ r.query) :
    r.pair (name ++ '=' :: value) = name ++ '=' :: "****".toList := by
  rw [pair, cut_append_cons value hname]
  exact if_pos (hidesQuery_iff.mpr h)

theorem pair_shown {p : List Char}
    (h : ∀ name value, p = name ++ '=' :: value → '=' ∉ name →
      foldName (String.ofList name) ∉ r.query) : r.pair p = p := by
  by_cases hmem : '=' ∈ p
  · obtain ⟨name, value, rfl, hname⟩ := exists_cut_of_mem hmem
    have hfree : ¬ r.hidesQuery (String.ofList name) = true := fun hhides =>
      h name value rfl hname (hidesQuery_iff.mp hhides)
    rw [pair, cut_append_cons value hname]
    exact if_neg hfree
  · rw [pair, cut_of_not_mem hmem]

theorem masked_pair (r : Redaction) (p : List Char) : Masked r p (r.pair p) := by
  by_cases h : ∀ name value, p = name ++ '=' :: value → '=' ∉ name →
      foldName (String.ofList name) ∉ r.query
  · rw [pair_shown h]
    exact .shown h
  · simp only [Classical.not_forall, Classical.not_not] at h
    obtain ⟨name, value, rfl, hname, hmem⟩ := h
    rw [pair_hidden value hname hmem]
    exact .hidden value hname hmem

/-- A masked pair is shown as it is. -/
theorem Masked.pair_eq {p q : List Char} (h : Masked r p q) : r.pair q = q := by
  cases h with
  | hidden value hname h => exact pair_hidden _ hname h
  | shown h => exact pair_shown h

/-- Masking brings no character into a pair but the stars. -/
theorem Masked.not_mem {p q : List Char} {c : Char} (h : Masked r p q) (hc : c ∉ p)
    (hstar : c ∉ "****".toList) : c ∉ q := by
  cases h with
  | hidden value hname hmem =>
    intro hq
    rcases List.mem_append.mp hq with hq | hq
    · exact hc (List.mem_append_left _ hq)
    · rcases List.mem_cons.mp hq with rfl | hq
      · exact hc (List.mem_append_right _ List.mem_cons_self)
      · exact hstar hq
  | shown _ => exact hc

theorem SameButHidden.pair_eq {p q : List Char} (h : SameButHidden r p q) :
    r.pair p = r.pair q := by
  cases h with
  | same => rfl
  | hidden v w hname h => rw [pair_hidden v hname h, pair_hidden w hname h]

/-! ### The whole text -/

theorem queryText_join (hne : pairs ≠ []) (h : ∀ p ∈ pairs, '&' ∉ p) :
    r.queryText (join ['&'] pairs) = join ['&'] (pairs.map r.pair) := by
  rw [queryText, pieces_join hne h]

/-- What is shown parts where the text did, into the masked pairs. -/
theorem parted_url (hr : r.query ≠ []) (h : Parted s base pairs fragment) :
    Parted (r.url s) base (pairs.map r.pair) fragment where
  text := by
    have hamp : ∀ p ∈ pairs, '&' ∉ p := fun p hp => (h.pairs p hp).1
    rw [url, String.toList_ofList, h.text, urlChars_parts hr h.base (hash_not_mem_join h.pairs),
      queryText_join h.nonempty hamp]
  base := h.base
  nonempty := by
    rw [ne_eq, List.map_eq_nil_iff]
    exact h.nonempty
  pairs q hq := by
    obtain ⟨p, hp, rfl⟩ := List.mem_map.mp hq
    obtain ⟨hamp, hhash⟩ := h.pairs p hp
    have hmasked := masked_pair r p
    exact ⟨hmasked.not_mem hamp (by decide), hmasked.not_mem hhash (by decide)⟩

theorem url_eq_self (h : r.query = [] ∨ '?' ∉ s.toList) : r.url s = s := by
  have hchars : r.urlChars s.toList = s.toList := by
    unfold urlChars
    rcases h with hquery | hmark
    · rw [hquery]
      rfl
    · rw [cut_of_not_mem hmark]
      exact ite_self _
  rw [url, hchars, String.ofList_toList]

/-- What is shown is shown as it is. -/
theorem url_url (r : Redaction) (s : String) : r.url (r.url s) = r.url s := by
  by_cases h : r.query = [] ∨ '?' ∉ s.toList
  · rw [url_eq_self h, url_eq_self h]
  · obtain ⟨hr, hmark⟩ := not_or.mp h
    obtain ⟨base, pairs, fragment, hs⟩ := exists_parted_iff.mp (Classical.not_not.mp hmark)
    have honce := parted_url hr hs
    have htwice := parted_url hr honce
    have hpairs : (pairs.map r.pair).map r.pair = pairs.map r.pair := by
      rw [List.map_map]
      exact List.map_congr_left fun p _ => (masked_pair r p).pair_eq
    rw [hpairs] at htwice
    exact htwice.eq honce

theorem map_pair_eq {ps qs : List (List Char)} (h : List.Forall₂ (SameButHidden r) ps qs) :
    ps.map r.pair = qs.map r.pair := by
  induction h with
  | nil => rfl
  | cons hpq _ ih => rw [List.map_cons, List.map_cons, hpq.pair_eq, ih]

/-- Texts that differ in hidden values only are shown alike. -/
theorem url_eq_url {ps qs : List (List Char)} (hs : Parted s base ps fragment)
    (ht : Parted t base qs fragment) (h : List.Forall₂ (SameButHidden r) ps qs) :
    r.url s = r.url t := by
  have hpairs := map_pair_eq h
  by_cases hr : r.query = []
  · -- nothing is hidden, so the pairs are the same
    have hself : r.pair = id := by
      funext p
      refine pair_shown fun name value _ _ => ?_
      rw [hr]
      exact List.not_mem_nil
    rw [hself, List.map_id, List.map_id] at hpairs
    subst hpairs
    rw [hs.eq ht]
  · have hshown := parted_url hr hs
    rw [hpairs] at hshown
    exact hshown.eq (parted_url hr ht)

/-! ### Main result -/

/-- **Redaction hides every sensitive value and touches nothing else.** A URL text with a
question mark is a base, pairs and a fragment. If the policy has query names, what is shown
has the same base, the same fragment and the same pairs in the same order, but for the values
of those whose name, trimmed and in lower case, is one of them: these are masked. Without
such names, or without a question mark, the text is shown as it is. So what is shown is shown
as it is again, and two texts that differ in values of hidden pairs only are shown alike. -/
theorem url_masks (r : Redaction) :
    (∀ s : String, '?' ∈ s.toList ↔ ∃ base pairs fragment, Parted s base pairs fragment) ∧
    (∀ s base pairs fragment, r.query ≠ [] → Parted s base pairs fragment →
      ∃ shown, Parted (r.url s) base shown fragment ∧ List.Forall₂ (Masked r) pairs shown) ∧
    (∀ s : String, r.query = [] ∨ '?' ∉ s.toList → r.url s = s) ∧
    (∀ s, r.url (r.url s) = r.url s) ∧
    ∀ s t base ps qs fragment, Parted s base ps fragment → Parted t base qs fragment →
      List.Forall₂ (SameButHidden r) ps qs → r.url s = r.url t := by
  refine ⟨fun s => exists_parted_iff, fun s base pairs fragment hr hs => ?_,
    fun s h => url_eq_self h, url_url r, fun s t base ps qs fragment hs ht h => url_eq_url hs ht h⟩
  refine ⟨pairs.map r.pair, parted_url hr hs, ?_⟩
  rw [List.forall₂_map_right_iff, List.forall₂_same]
  intro p _
  exact masked_pair r p

example : (withQuery "key" {}).url "http://x.test/?a=1&KEY=s=1&key#f" =
    "http://x.test/?a=1&KEY=****&key#f" := by decide +kernel

/-- A hash stands in front of the question mark, the name has blanks and capitals, the value
an equals sign, and of two names one has no value. -/
theorem url_masks_key :
    Parted "http://x.test/#a?page=2&API_key =s=1&api_key&#f?" "http://x.test/#a".toList
      ["page=2".toList, "API_key =s=1".toList, "api_key".toList, []] (some "f?") ∧
    (withQuery " api_KEY" {}).url "http://x.test/#a?page=2&API_key =s=1&api_key&#f?" =
      (withQuery " api_KEY" {}).url "http://x.test/#a?page=2&API_key =&api_key&#f?" := by
  have hname : foldName (String.ofList "API_key ".toList) ∈ (withQuery " api_KEY" {}).query := by
    decide +kernel
  have hs : Parted "http://x.test/#a?page=2&API_key =s=1&api_key&#f?" "http://x.test/#a".toList
      ["page=2".toList, "API_key =s=1".toList, "api_key".toList, []] (some "f?") :=
    ⟨by decide, by decide, by decide, by decide⟩
  have ht : Parted "http://x.test/#a?page=2&API_key =&api_key&#f?" "http://x.test/#a".toList
      ["page=2".toList, "API_key =".toList, "api_key".toList, []] (some "f?") :=
    ⟨by decide, by decide, by decide, by decide⟩
  refine ⟨hs, (url_masks _).2.2.2.2 _ _ _ _ _ _ hs ht ?_⟩
  exact .cons (.same _) (.cons (.hidden "s=1".toList [] (by decide) hname)
    (.cons (.same _) (.cons (.same _) .nil)))

end Relay.Redaction
