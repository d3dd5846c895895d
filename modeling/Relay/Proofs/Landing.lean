/-
# Where a joined path lands

A path is joined to a base as text, behind everything that the base has. A base without a query
and without a fragment ends in its path, and there the joined path belongs. But a base may
have both, and then its text ends in the last of them: the path lands in that one, and the part
that it should have been put behind stays as it was. Nothing in front of the last part is
touched in any case, since a path without marks does not begin a part.

Key definitions: `Url.continueLast`, `Url.behindAuthority`, `Url.Lengthened`, `Url.Landed`.
Key theorems: `cutPath_append`, `behindAuthority_of_extendsBy`, `Lengthened.ne`,
`Landed.same_iff`, `hasParts_of_joined`, `joinUrl_lands`.
-/
import Relay.Proofs.Joining
import Relay.Proofs.Url

namespace Relay

open Text

namespace Text

/-- Trimming brings no character into a text. -/
theorem mem_of_mem_trim {s : String} {c : Char} (h : c ∈ (trim s).toList) : c ∈ s.toList := by
  rw [trim, String.toList_ofList, trimChars] at h
  exact (List.dropWhile_suffix _).subset (Url.subset_of_dropEndWhile h)

end Text

namespace Url

/-! ### Behind the last part -/

/-- More text behind a path, a query and a fragment belongs to the last of them. -/
def continueLast (more : List Char) :
    List Char × Option (List Char) × Option (List Char) →
      List Char × Option (List Char) × Option (List Char)
  | (path, query, some fragment) => (path, query, some (fragment ++ more))
  | (path, some query, none) => (path, some (query ++ more), none)
  | (path, none, none) => (path ++ more, none, none)

/-- A character that begins no part belongs to the path. -/
theorem cutPath_cons {c : Char} (hc : isPathEnd c = false) (cs : List Char) :
    cutPath (c :: cs) = (c :: (cutPath cs).1, (cutPath cs).2) := by
  have htake : (c :: cs).takeWhile (fun c => !isPathEnd c) =
      c :: cs.takeWhile fun c => !isPathEnd c := by
    rw [List.takeWhile_cons, hc]
    rfl
  have hdrop : (c :: cs).dropWhile (fun c => !isPathEnd c) =
      cs.dropWhile fun c => !isPathEnd c := by
    rw [List.dropWhile_cons, hc]
    rfl
  unfold cutPath
  rw [htake, hdrop]
  generalize cs.dropWhile (fun c => !isPathEnd c) = rest
  split <;> rfl

theorem cutPath_unmarked : ∀ {cs : List Char}, Unmarked cs → cutPath cs = (cs, none, none)
  | [], _ => rfl
  | c :: cs, h => by
    have ih : cutPath cs = (cs, none, none) :=
      cutPath_unmarked fun d hd => h d (List.mem_cons_of_mem c hd)
    rw [cutPath_cons (h c List.mem_cons_self), ih]

/-- **Text without marks goes behind the last part**, whichever that is. -/
theorem cutPath_append {more : List Char} (h : Unmarked more) : ∀ cs : List Char,
    cutPath (cs ++ more) = continueLast more (cutPath cs)
  | [] => cutPath_unmarked h
  | c :: cs => by
    cases hc : isPathEnd c with
    | false =>
      have ih := cutPath_append h cs
      rw [List.cons_append, cutPath_cons hc, cutPath_cons hc, ih]
      rcases cutPath cs with ⟨path, _ | query, _ | fragment⟩ <;> rfl
    | true =>
      have hhash : '#' ∉ more := fun hmem => absurd (h '#' hmem) (by decide)
      rcases isPathEnd_cases hc with rfl | rfl
      · show ([], some (cut '#' (cs ++ more)).1, (cut '#' (cs ++ more)).2) =
          continueLast more ([], some (cut '#' cs).1, (cut '#' cs).2)
        rw [cut_append_of_not_mem hhash]
        rcases cut '#' cs with ⟨query, _ | fragment⟩ <;> rfl
      · rfl

/-! ### What is joined to a base -/

theorem unmarked_slashes {slashes : List Char} (h : ∀ c ∈ slashes, c = '/') : Unmarked slashes := by
  intro c hc
  rw [h c hc]
  decide

theorem unmarked_controls {controls : List Char} (h : ∀ c ∈ controls, c.toNat ≤ 32) :
    Unmarked controls := by
  intro c hc
  have hend : isAuthorityEnd true c = false := not_isAuthorityEnd_of_le (h c hc)
  simp only [isAuthorityEnd, Bool.or_eq_false_iff] at hend
  exact Bool.or_eq_false_iff.mpr ⟨hend.1.1.2, hend.1.2⟩

/-- What stands behind the authority. -/
def behindAuthority (cs : List Char) : List Char :=
  (cs.dropWhile (isSlash true)).dropWhile fun c => !isAuthorityEnd true c

/-- **Behind an authority that the base has, both texts have a part in common as well.** -/
theorem behindAuthority_of_extendsBy {path alone joined : List Char}
    (h : ExtendsBy path alone joined) (hne : authorityText alone ≠ []) :
    ExtendsBy path (behindAuthority alone) (behindAuthority joined) := by
  obtain ⟨common, slashes, controls, rfl, rfl, hslash, hcontrol⟩ := h
  unfold behindAuthority
  rw [List.append_assoc, skip_append hslash hne, skip_append hslash hne]
  generalize common.dropWhile (isSlash true) = front
  rw [List.dropWhile_append, List.dropWhile_append]
  by_cases hfront : (front.dropWhile fun c => !isAuthorityEnd true c).isEmpty = true
  · -- the authority goes on behind the common part, over the controls
    rw [if_pos hfront, if_pos hfront]
    have hslashes : (slashes.dropWhile fun c => !isAuthorityEnd true c) = slashes := by
      refine dropWhile_of_head? fun c hc => ?_
      rw [hslash c (List.mem_of_head? hc)]
      decide
    have hcontrols : ((controls ++ '/' :: path).dropWhile fun c => !isAuthorityEnd true c) =
        '/' :: path := by
      rw [List.dropWhile_append_of_pos fun c hc => by
        rw [not_isAuthorityEnd_of_le (hcontrol c hc), Bool.not_false]]
      rfl
    exact ⟨[], slashes, [], hslashes, hcontrols, hslash, fun c hc => (nomatch hc)⟩
  · rw [if_neg hfront, if_neg hfront]
    exact ⟨_, slashes, controls, rfl, (List.append_assoc _ _ _).symm, hslash, hcontrol⟩

/-- A path without marks goes behind the last part of the base. -/
theorem cutPath_of_extendsBy {path alone joined : List Char} (h : ExtendsBy path alone joined)
    (hpath : Unmarked path) : ∃ parts slashes controls,
      cutPath alone = continueLast slashes parts ∧
      cutPath joined = continueLast (controls ++ '/' :: path) parts ∧
      (∀ c ∈ slashes, c = '/') ∧ ∀ c ∈ controls, c.toNat ≤ 32 := by
  obtain ⟨common, slashes, controls, rfl, rfl, hslash, hcontrol⟩ := h
  have hmore : Unmarked (controls ++ '/' :: path) :=
    (unmarked_controls hcontrol).append (.cons (by decide) hpath)
  refine ⟨cutPath common, slashes, controls, cutPath_append (unmarked_slashes hslash) common, ?_,
    hslash, hcontrol⟩
  rw [List.append_assoc, cutPath_append hmore]

/-! ### Parts that a path landed in -/

/-- The part of a URL with a path behind it: the slashes at its end are gone, and
controls may stand in front of the path's slash. -/
def Lengthened (set : Percent.EncodeSet) (path : List Char) (part longer : String) : Prop :=
  ∃ stem slashes controls, part.toList = stem ++ slashes ∧
    longer.toList = stem ++ Percent.encode set (controls ++ '/' :: path) ∧
    (∀ c ∈ slashes, c = '/') ∧ ∀ c ∈ controls, c.toNat ≤ 32

theorem lengthened_encode {set : Percent.EncodeSet} (hset : set '/' = false)
    {path slashes controls : List Char} (hslash : ∀ c ∈ slashes, c = '/')
    (hcontrol : ∀ c ∈ controls, c.toNat ≤ 32) (stem : List Char) :
    Lengthened set path (String.ofList (Percent.encode set (stem ++ slashes)))
      (String.ofList (Percent.encode set (stem ++ (controls ++ '/' :: path)))) := by
  have hslashes : Percent.encode set slashes = slashes :=
    Percent.encode_eq_self fun c hc => by rw [hslash c hc, hset]
  refine ⟨Percent.encode set stem, slashes, controls, ?_, ?_, hslash, hcontrol⟩
  · rw [String.toList_ofList, Percent.encode_append, hslashes]
  · rw [String.toList_ofList, Percent.encode_append]

/-- Encoding turns nothing into a slash. -/
theorem exists_mem_encode_ne_slash {set : Percent.EncodeSet} {cs : List Char} {c : Char}
    (hc : c ∈ cs) (hne : c ≠ '/') : ∃ d ∈ Percent.encode set cs, d ≠ '/' := by
  have hchar : ∃ d ∈ Percent.encodeChar set c, d ≠ '/' := by
    unfold Percent.encodeChar
    split
    · cases hbytes : String.utf8EncodeChar c with
      | nil => exact absurd hbytes String.utf8EncodeChar_ne_nil
      | cons b bytes => exact ⟨'%', List.mem_append_left _ List.mem_cons_self, by decide⟩
    · exact ⟨c, List.mem_singleton.mpr rfl, hne⟩
  obtain ⟨d, hd, hslash⟩ := hchar
  exact ⟨d, List.mem_flatMap.mpr ⟨c, hc, hd⟩, hslash⟩

/-- **A part that a path landed in is another one**, unless the path was slashes only. -/
theorem Lengthened.ne {set : Percent.EncodeSet} {path : List Char} {part longer : String}
    (h : Lengthened set path part longer) {c : Char} (hc : c ∈ path) (hne : c ≠ '/') :
    longer ≠ part := by
  obtain ⟨stem, slashes, controls, hpart, hlonger, hslash, -⟩ := h
  intro heq
  rw [heq, hpart] at hlonger
  have hslashes : slashes = Percent.encode set (controls ++ '/' :: path) :=
    List.append_cancel_left hlonger
  have hmem : c ∈ controls ++ '/' :: path :=
    List.mem_append_right _ (List.mem_cons_of_mem _ hc)
  obtain ⟨d, hd, hd'⟩ : ∃ d ∈ Percent.encode set (controls ++ '/' :: path), d ≠ '/' :=
    exists_mem_encode_ne_slash hmem hne
  exact hd' (hslash d (hslashes ▸ hd))

/-- **Where a path lands** that is put behind the text of a URL: behind the fragment if
there is one, else behind the query if there is one, and behind the path only
where there is neither. Every other part stays. -/
structure Landed (path : List Char) (u v : Url) : Prop where
  bare : u.query = none → u.fragment = none → v.query = none ∧ v.fragment = none
  query : ∀ q, u.query = some q → u.fragment = none → v.path = u.path ∧ v.fragment = none ∧
    ∃ q', v.query = some q' ∧ Lengthened Percent.specialQuerySet path q q'
  fragment : ∀ f, u.fragment = some f → v.path = u.path ∧ v.query = u.query ∧
    ∃ f', v.fragment = some f' ∧ Lengthened Percent.fragmentSet path f f'

theorem landed_of_hasParts {path slashes controls : List Char} {u v : Url}
    {parts : List Char × Option (List Char) × Option (List Char)}
    (hu : u.HasParts (continueLast slashes parts))
    (hv : v.HasParts (continueLast (controls ++ '/' :: path) parts))
    (hslash : ∀ c ∈ slashes, c = '/') (hcontrol : ∀ c ∈ controls, c.toNat ≤ 32) :
    Landed path u v := by
  obtain ⟨hupath, huquery, hufragment⟩ := hu
  obtain ⟨hvpath, hvquery, hvfragment⟩ := hv
  rcases parts with ⟨front, query, _ | fragment⟩
  · cases query with
    | none =>
      refine ⟨fun _ _ => ⟨hvquery, hvfragment⟩, fun q hq => ?_, fun f hf => ?_⟩
      · rw [huquery] at hq
        cases hq
      · rw [hufragment] at hf
        cases hf
    | some query =>
      refine ⟨fun hq => ?_, fun q hq _ => ⟨hvpath.trans hupath.symm, hvfragment, ?_⟩,
        fun f hf => ?_⟩
      · rw [huquery] at hq
        cases hq
      · rw [huquery] at hq
        cases hq
        exact ⟨_, hvquery, lengthened_encode (by decide) hslash hcontrol query⟩
      · rw [hufragment] at hf
        cases hf
  · refine ⟨fun _ hf => ?_, fun q _ hf => ?_,
      fun f hf => ⟨hvpath.trans hupath.symm, hvquery.trans huquery.symm, ?_⟩⟩
    · rw [hufragment] at hf
      cases hf
    · rw [hufragment] at hf
      cases hf
    · rw [hufragment] at hf
      cases hf
      exact ⟨_, hvfragment, lengthened_encode (by decide) hslash hcontrol fragment⟩

/-- **Query and fragment stay exactly if there is neither**, unless the path was slashes only. -/
theorem Landed.same_iff {path : List Char} {u v : Url} (h : Landed path u v) {c : Char}
    (hc : c ∈ path) (hne : c ≠ '/') :
    (v.query = u.query ∧ v.fragment = u.fragment) ↔ (u.query = none ∧ u.fragment = none) := by
  constructor
  · rintro ⟨hquery, hfragment⟩
    cases hf : u.fragment with
    | some f =>
      obtain ⟨-, -, f', hf', hlengthened⟩ := h.fragment f hf
      rw [hf, hf'] at hfragment
      exact absurd (Option.some.inj hfragment) (hlengthened.ne hc hne)
    | none =>
      cases hq : u.query with
      | some q =>
        obtain ⟨-, -, q', hq', hlengthened⟩ := h.query q hq hf
        rw [hq, hq'] at hquery
        exact absurd (Option.some.inj hquery) (hlengthened.ne hc hne)
      | none => exact ⟨rfl, rfl⟩
  · rintro ⟨hq, hf⟩
    obtain ⟨hq', hf'⟩ := h.bare hq hf
    exact ⟨hq'.trans hq.symm, hf'.trans hf.symm⟩

/-- A character that is read of a path is read of what is joined. -/
theorem mem_cleanEnd {cs : List Char} {c : Char} (hc : c ∈ cs) (h : isControlOrSpace c = false) :
    c ∈ cleanEnd cs := by
  have htab : (!isTabOrNewline c) = true := by
    rw [Bool.not_eq_true', Bool.eq_false_iff]
    intro htab
    rcases isTabOrNewline_cases htab with rfl | rfl | rfl
    all_goals exact absurd h (by decide)
  refine List.mem_filter.mpr ⟨?_, htab⟩
  obtain ⟨dropped, happend, hdropped⟩ := exists_dropEndWhile_append isControlOrSpace cs
  rw [← happend, List.mem_append] at hc
  refine hc.resolve_right fun hmem => ?_
  rw [hdropped c hmem] at h
  cases h

end Url

namespace Request

open Url

/-- What is read of the path that is joined to a base. -/
def joinedPath (path : String) : List Char :=
  cleanEnd ((trim path).toList.dropWhile (· = '/'))

theorem unmarked_joinedPath {path : String} (h : Unmarked path.toList) :
    Unmarked (joinedPath path) := fun c hc =>
  h c (mem_of_mem_trim ((List.dropWhile_suffix _).subset
    (subset_of_dropEndWhile (List.mem_filter.mp hc).1)))

theorem mem_joinedPath {path : String} {c : Char} (hc : c ∈ (trim path).toList) (hslash : c ≠ '/')
    (hcontrol : isControlOrSpace c = false) : c ∈ joinedPath path := by
  refine mem_cleanEnd ?_ hcontrol
  have happend := List.takeWhile_append_dropWhile (p := (· = '/')) (l := (trim path).toList)
  rw [← happend, List.mem_append] at hc
  refine hc.resolve_left fun hmem => hslash ?_
  have hall := List.all_eq_true.mp (List.all_takeWhile (p := (· = '/'))) c hmem
  exact of_decide_eq_true hall

/-- **A path without marks goes behind the last part that the base has.** -/
theorem hasParts_of_joined {base path : String} {u v : Url} (hbase : webUrl base = .ok u)
    (h : webUrl (joinText base (trim path)) = .ok v) (hpath : Unmarked path.toList) :
    ∃ parts slashes controls, u.HasParts (continueLast slashes parts) ∧
      v.HasParts (continueLast (controls ++ '/' :: joinedPath path) parts) ∧
      (∀ c ∈ slashes, c = '/') ∧ ∀ c ∈ controls, c.toNat ≤ 32 := by
  obtain ⟨hspecial, rest, hcut, hrest⟩ := afterSlashes?_of_webUrl hbase
  obtain ⟨hspecial', rest', hcut', hrest'⟩ := afterSlashes?_of_webUrl h
  have hextends : ExtendsBy (joinedPath path) (clean base.toList)
      (clean (joinText base (trim path)).toList) := by
    unfold joinText
    rw [String.toList_ofList]
    exact clean_joinedBy (exists_head_of_cutScheme? hcut) _
  obtain ⟨rest'', hcut'', hextends⟩ := cutScheme?_of_extendsBy hextends hcut
  rw [hcut'] at hcut''
  obtain ⟨-, rfl⟩ := Prod.mk.inj (Option.some.inj hcut'')
  have hne : authorityText rest ≠ [] := by
    obtain ⟨-, a, ha, -⟩ := afterSlashes?_eq_ok hrest
    rw [hspecial] at ha
    exact authority?_ne_nil hspecial ha
  obtain ⟨parts, slashes, controls, halone, hjoined, hslash, hcontrol⟩ :=
    cutPath_of_extendsBy (behindAuthority_of_extendsBy hextends hne) (unmarked_joinedPath hpath)
  have hu : u.HasParts (cutPath (behindAuthority rest)) := hasParts_of_afterSlashes? hspecial hrest
  have hv : v.HasParts (cutPath (behindAuthority rest')) :=
    hasParts_of_afterSlashes? hspecial' hrest'
  rw [halone] at hu
  rw [hjoined] at hv
  exact ⟨parts, slashes, controls, hu, hv, hslash, hcontrol⟩

/-- A blank path is the base; any other is read behind it. -/
theorem joinUrl_below {base path : String} {u : Url} (hbase : webUrl (trim base) = .ok u)
    (hpath : isAbsolute (trim path) = false) :
    (trim path = "" → joinUrl (some base) (some path) = .ok u) ∧
    (trim path ≠ "" →
      joinUrl (some base) (some path) = webUrl (joinText (trim base) (trim path))) := by
  have hmissing : ¬(trim base == "") = true := by
    intro hempty
    rw [eq_of_beq hempty] at hbase
    cases hbase
  unfold joinUrl
  dsimp only [Option.getD_some]
  rw [hpath, if_neg Bool.false_ne_true, if_neg hmissing]
  constructor
  · intro hblank
    rw [if_pos (beq_iff_eq.mpr hblank), hbase]
  · intro hne
    rw [if_neg fun h => hne (eq_of_beq h)]

/-- **A joined path reaches the path of its base only if the base has neither a query nor a
fragment.** A relative path without a question mark and without a hash, joined to a web URL,
leaves scheme and authority; a blank one leaves the whole URL. Any other lands behind
the last part of the base: in the fragment if there is one, else in the query if there is one,
and all other parts are those of the base. So, unless slashes are all that is read of the path,
query and fragment stay exactly if the base has neither. -/
theorem joinUrl_lands {base path : String} {u v : Url} (hbase : webUrl (trim base) = .ok u)
    (hpath : isAbsolute (trim path) = false) (hmarks : Unmarked path.toList)
    (h : joinUrl (some base) (some path) = .ok v) :
    (v.scheme = u.scheme ∧ v.authority = u.authority) ∧
    (trim path = "" → v = u) ∧
    (trim path ≠ "" → Landed (joinedPath path) u v) ∧
    ((∃ c ∈ (trim path).toList, c ≠ '/' ∧ isControlOrSpace c = false) →
      (v.query = u.query ∧ v.fragment = u.fragment ↔ u.query = none ∧ u.fragment = none)) := by
  obtain ⟨hblank, hbelow⟩ := joinUrl_below hbase hpath
  have hlanded : trim path ≠ "" → Landed (joinedPath path) u v := by
    intro hne
    rw [hbelow hne] at h
    obtain ⟨parts, slashes, controls, hu, hv, hslash, hcontrol⟩ :=
      hasParts_of_joined hbase h hmarks
    exact landed_of_hasParts hu hv hslash hcontrol
  have hrelative : isAbsolute (trim ((some path).getD "")) = false := hpath
  refine ⟨joinUrl_keeps_authority hbase hrelative h, fun hempty => ?_, hlanded, ?_⟩
  · rw [hblank hempty] at h
    exact (Except.ok.inj h).symm
  · rintro ⟨c, hc, hslash, hcontrol⟩
    have hne : trim path ≠ "" := by
      intro hempty
      rw [hempty] at hc
      exact List.not_mem_nil hc
    exact (hlanded hne).same_iff (mem_joinedPath hc hslash hcontrol) hslash

/-- A base with a fragment: the path lands there, and the query stays. -/
theorem joinUrl_lands_fragment :
    ∃ u v, webUrl (trim "https://x.test/a?k=1#top/") = .ok u ∧
      joinUrl (some "https://x.test/a?k=1#top/") (some "/items") = .ok v ∧
      u.fragment = some "top/" ∧ v.fragment = some "top/items" ∧ v.query = u.query ∧
      ¬(v.query = u.query ∧ v.fragment = u.fragment) := by
  have hbase : webUrl (trim "https://x.test/a?k=1#top/") = .ok
      ⟨"https", some { host := some (.domain "x.test") }, "/a", some "k=1", some "top/"⟩ :=
    except_eq_ok_of_toOption (by decide +kernel)
  have hjoined : joinUrl (some "https://x.test/a?k=1#top/") (some "/items") = .ok
      ⟨"https", some { host := some (.domain "x.test") }, "/a", some "k=1", some "top/items"⟩ :=
    except_eq_ok_of_toOption (by decide +kernel)
  obtain ⟨-, -, hlanded, hiff⟩ :=
    joinUrl_lands hbase (by decide +kernel) (unmarked_of_any id (by decide)) hjoined
  refine ⟨_, _, hbase, hjoined, rfl, rfl, ((hlanded (by decide +kernel)).fragment _ rfl).2.1, ?_⟩
  intro hsame
  have hnone := (hiff ⟨'i', by decide +kernel, by decide, by decide⟩).mp hsame
  cases hnone.1

/-- **The query of a base takes the path in.** -/
theorem joinUrl_into_query :
    ∃ u v, webUrl "https://x.test/a?k=1" = .ok u ∧
      joinUrl (some "https://x.test/a?k=1") (some "items") = .ok v ∧
      u.query = some "k=1" ∧ v.query = some "k=1/items" ∧ v.path = u.path :=
  ⟨⟨"https", some { host := some (.domain "x.test") }, "/a", some "k=1", none⟩,
    ⟨"https", some { host := some (.domain "x.test") }, "/a", some "k=1/items", none⟩,
    except_eq_ok_of_toOption (by decide +kernel), except_eq_ok_of_toOption (by decide +kernel),
    rfl, rfl, rfl⟩

end Request

end Relay
