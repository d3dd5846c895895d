/-
# Paths that stay below their base

What is joined to a base stands behind a slash of its own. That slash ends the authority if
the base has not ended it before, so the path has no part in who is asked: not with
slashes or backslashes, not with an at sign, nor with another URL. Of the base alone, slashes
and controls at the end are not read. The slashes end an authority that has ended anyway; the
controls would become part of it in front of the path, and then the URL is refused.

Key definitions: `Url.Extends`, `Url.ExtendsBy`.
Key theorems: `clean_joined`, `cutScheme?_of_extends`, `authorityText_of_extends`,
`afterSlashes?_of_webUrl`, `joinUrl_keeps_authority`.
-/
import Relay.Proofs.Host
import Relay.Request

namespace Relay

open Text

namespace Url

/-! ### What is read of a joined text -/

/-- Two texts have a part in common. Behind it the first has slashes at most, and the second
has a slash with anything behind it and controls or spaces at most before it. -/
def Extends (alone joined : List Char) : Prop :=
  ∃ common slashes controls path, alone = common ++ slashes ∧
    joined = common ++ controls ++ '/' :: path ∧ (∀ c ∈ slashes, c = '/') ∧
    ∀ c ∈ controls, c.toNat ≤ 32

/-- The same, with the text that stands behind the slash. -/
def ExtendsBy (path alone joined : List Char) : Prop :=
  ∃ common slashes controls, alone = common ++ slashes ∧
    joined = common ++ controls ++ '/' :: path ∧ (∀ c ∈ slashes, c = '/') ∧
    ∀ c ∈ controls, c.toNat ≤ 32

theorem extends_iff {alone joined : List Char} :
    Extends alone joined ↔ ∃ path, ExtendsBy path alone joined := by
  constructor
  · rintro ⟨common, slashes, controls, path, h⟩
    exact ⟨path, common, slashes, controls, h⟩
  · rintro ⟨path, common, slashes, controls, h⟩
    exact ⟨common, slashes, controls, path, h⟩

/-- What is read of a text that another text stands in front of. -/
def cleanEnd (cs : List Char) : List Char :=
  (dropEndWhile isControlOrSpace cs).filter fun c => !isTabOrNewline c

theorem slash_not_control : isControlOrSpace '/' = false := by decide

theorem isTabOrNewline_cases {c : Char} (h : isTabOrNewline c = true) :
    c = '\t' ∨ c = '\n' ∨ c = '\r' := by
  simpa [isTabOrNewline, or_assoc] using h

/-- Behind a text that is more than controls and spaces, a slash stays where it is. -/
theorem clean_append_slash {body : List Char}
    (hbody : ¬(body.dropWhile isControlOrSpace).isEmpty = true) (rest : List Char) :
    clean (body ++ '/' :: rest) =
      (body.dropWhile isControlOrSpace).filter (fun c => !isTabOrNewline c) ++
        '/' :: cleanEnd rest := by
  unfold clean cleanEnd
  rw [List.dropWhile_append, if_neg hbody, dropEndWhile_append_cons slash_not_control,
    List.filter_append]
  exact congrArg _ (List.filter_cons_of_pos (by decide))

theorem subset_of_dropEndWhile {p : Char → Bool} {cs : List Char} : dropEndWhile p cs ⊆ cs := by
  obtain ⟨dropped, happend, -⟩ := exists_dropEndWhile_append p cs
  exact fun c hc => happend ▸ List.mem_append_left dropped hc

/-- Something stands in front of the last slashes of a text that does not begin with one. -/
theorem exists_before_slashes {body slashes : List Char} (hslash : ∀ c ∈ slashes, c = '/')
    {c : Char} (hhead : (clean (body ++ slashes)).head? = some c) (hc : c ≠ '/') :
    ¬(body.dropWhile isControlOrSpace).isEmpty = true := by
  intro hempty
  unfold clean at hhead
  rw [List.dropWhile_append, if_pos hempty] at hhead
  have hmem := (List.mem_filter.mp (List.mem_of_head? hhead)).1
  exact hc (hslash c ((List.dropWhile_suffix _).subset (subset_of_dropEndWhile hmem)))

/-- A control or a space at the end. -/
def EndsInControl (cs : List Char) : Prop := ∃ c, cs.getLast? = some c ∧ c.toNat ≤ 32

/-- A text that is more than controls and spaces ends in what is dropped at its end, if that is not
empty, and else in what stays. -/
theorem getLast?_eq_or {body dropped : List Char}
    (hbody : ¬(body.dropWhile isControlOrSpace).isEmpty = true)
    (happend : dropEndWhile isControlOrSpace (body.dropWhile isControlOrSpace) ++ dropped =
      body.dropWhile isControlOrSpace) :
    body.getLast? = dropped.getLast?.or
      (dropEndWhile isControlOrSpace (body.dropWhile isControlOrSpace)).getLast? := by
  rw [← List.getLast?_append, happend]
  have hsplit := List.takeWhile_append_dropWhile (p := isControlOrSpace) (l := body)
  have happended := congrArg List.getLast? hsplit
  rw [List.getLast?_append] at happended
  cases hend : (body.dropWhile isControlOrSpace).getLast? with
  | none => exact absurd (List.isEmpty_iff.mpr (List.getLast?_eq_none_iff.mp hend)) hbody
  | some c =>
    rw [hend, Option.some_or] at happended
    exact happended.symm

/-- What stays does not end in a control. -/
theorem not_control_of_getLast?_dropEndWhile {cs : List Char} {c : Char}
    (h : (dropEndWhile isControlOrSpace cs).getLast? = some c) : ¬c.toNat ≤ 32 := by
  rw [dropEndWhile, List.getLast?_reverse] at h
  intro hcontrol
  exact absurd ((not_of_head?_dropWhile h).symm.trans (isControlOrSpace_iff.mpr hcontrol))
    Bool.false_ne_true

/-- **A base and what is joined to it are read alike**, if the base has more than slashes. There
are controls in front of the path only if the base ends in one. -/
theorem clean_join {base : List Char} (hbase : ∃ c, (clean base).head? = some c ∧ c ≠ '/')
    (rest : List Char) : ∃ common slashes controls,
      clean base = common ++ slashes ∧
      clean (dropEndWhile (· = '/') base ++ '/' :: rest) =
        common ++ controls ++ '/' :: cleanEnd rest ∧
      (∀ c ∈ slashes, c = '/') ∧ (∀ c ∈ controls, c.toNat ≤ 32) ∧
      (¬EndsInControl base → controls = []) ∧
      (EndsInControl base → (∀ c, base.getLast? = some c → isTabOrNewline c = false) →
        controls ≠ [] ∧ slashes = []) := by
  obtain ⟨slashes, happend, hslash⟩ := exists_dropEndWhile_append (fun c => decide (c = '/')) base
  generalize dropEndWhile (fun c => decide (c = '/')) base = body at happend
  replace hslash : ∀ c ∈ slashes, c = '/' := fun c hc => of_decide_eq_true (hslash c hc)
  obtain ⟨c, hhead, hc⟩ := hbase
  rw [← happend] at hhead ⊢
  have hbody := exists_before_slashes hslash hhead hc
  rw [clean_append_slash hbody]
  cases slashes with
  | nil =>
    -- without slashes, the controls at the end of the base are read before the path only
    obtain ⟨dropped, hdropped, hall⟩ :=
      exists_dropEndWhile_append isControlOrSpace (body.dropWhile isControlOrSpace)
    have hlast := getLast?_eq_or hbody hdropped
    have hcontrols : ∀ c ∈ dropped, c.toNat ≤ 32 := fun c hc => isControlOrSpace_iff.mp (hall c hc)
    rw [List.append_nil]
    refine ⟨clean body, [], dropped.filter fun c => !isTabOrNewline c, (List.append_nil _).symm,
      ?_, fun c hc => (nomatch hc), fun c hc => hcontrols c (List.mem_filter.mp hc).1,
      fun hnot => ?_, ?_⟩
    · unfold clean
      rw [← List.filter_append, hdropped]
    · cases hend : dropped.getLast? with
      | none =>
        rw [List.getLast?_eq_none_iff.mp hend]
        rfl
      | some d =>
        rw [hend, Option.some_or] at hlast
        exact absurd ⟨d, hlast, hcontrols d (List.mem_of_getLast? hend)⟩ hnot
    · rintro ⟨c, hc, hcontrol⟩ htab
      refine ⟨?_, rfl⟩
      have hkept : (!isTabOrNewline c) = true := by rw [htab c hc, Bool.not_false]
      rw [hlast] at hc
      cases hend : dropped.getLast? with
      | none =>
        rw [hend, Option.none_or] at hc
        exact absurd hcontrol (not_control_of_getLast?_dropEndWhile hc)
      | some d =>
        rw [hend, Option.some_or] at hc
        cases hc
        exact List.ne_nil_of_mem (List.mem_filter.mpr ⟨List.mem_of_getLast? hend, hkept⟩)
  | cons slash slashes =>
    obtain rfl := hslash slash List.mem_cons_self
    have hnot : ¬EndsInControl (body ++ '/' :: slashes) := by
      rintro ⟨c, hc, hcontrol⟩
      rw [List.getLast?_append, List.getLast?_cons, Option.some_or] at hc
      have hmem : c ∈ '/' :: slashes := List.mem_of_getLast? (List.getLast?_cons.trans hc)
      rw [hslash c hmem] at hcontrol
      exact absurd hcontrol (by decide)
    refine ⟨_, _, [], clean_append_slash hbody slashes, ?_, fun c hc => ?_,
      fun c hc => (nomatch hc), fun _ => rfl, fun hends => absurd hends hnot⟩
    · rw [List.append_nil]
    · refine hslash c ?_
      rcases List.mem_cons.mp hc with rfl | hc
      · exact List.mem_cons_self
      · exact List.mem_cons_of_mem _ (subset_of_dropEndWhile (List.mem_filter.mp hc).1)

theorem clean_joinedBy {base : List Char} (hbase : ∃ c, (clean base).head? = some c ∧ c ≠ '/')
    (rest : List Char) :
    ExtendsBy (cleanEnd rest) (clean base)
      (clean (dropEndWhile (· = '/') base ++ '/' :: rest)) := by
  obtain ⟨common, slashes, controls, hclean, hjoined, hslash, hcontrol, -⟩ := clean_join hbase rest
  exact ⟨common, slashes, controls, hclean, hjoined, hslash, hcontrol⟩

theorem clean_joined {base : List Char} (hbase : ∃ c, (clean base).head? = some c ∧ c ≠ '/')
    (rest : List Char) :
    Extends (clean base) (clean (dropEndWhile (· = '/') base ++ '/' :: rest)) :=
  extends_iff.mpr ⟨_, clean_joinedBy hbase rest⟩

/-! ### The scheme -/

/-- A word that may be a scheme, before its colon. -/
def IsSchemeWord (word : List Char) : Prop :=
  (∃ c, word.head? = some c ∧ isAlpha c = true) ∧ word.all isSchemeChar = true

theorem isSchemeChar_of_isAlpha {c : Char} (h : isAlpha c = true) : isSchemeChar c = true := by
  unfold isSchemeChar
  rw [h]
  rfl

theorem cutScheme?_eq_some_iff {cs rest : List Char} {scheme : String} :
    cutScheme? cs = some (scheme, rest) ↔ ∃ word, IsSchemeWord word ∧ cs = word ++ ':' :: rest ∧
      scheme = String.ofList (lowerChars word) := by
  constructor
  · intro h
    unfold cutScheme? at h
    split at h
    · cases h
    · rename_i c cs
      split at h
      · rename_i halpha
        split at h
        · rename_i rest' hrest
          cases h
          refine ⟨(c :: cs).takeWhile isSchemeChar, ⟨⟨c, ?_, halpha⟩, List.all_takeWhile⟩, ?_, rfl⟩
          · rw [List.takeWhile_cons, if_pos (isSchemeChar_of_isAlpha halpha), List.head?_cons]
          · rw [← hrest, List.takeWhile_append_dropWhile]
        · cases h
      · cases h
  · rintro ⟨word, ⟨⟨c, hhead, halpha⟩, hall⟩, rfl, rfl⟩
    obtain ⟨tail, rfl⟩ := List.head?_eq_some_iff.mp hhead
    have hcolon : isSchemeChar ':' = false := by decide
    have htake : (c :: tail ++ ':' :: rest).takeWhile isSchemeChar = c :: tail := by
      rw [List.takeWhile_append_of_pos (List.all_eq_true.mp hall), List.takeWhile_cons, hcolon,
        if_neg Bool.false_ne_true, List.append_nil]
    have hdrop : (c :: tail ++ ':' :: rest).dropWhile isSchemeChar = ':' :: rest := by
      rw [List.dropWhile_append_of_pos (List.all_eq_true.mp hall), List.dropWhile_cons, hcolon,
        if_neg Bool.false_ne_true]
    show (if isAlpha c then _ else _) = _
    rw [if_pos halpha, hdrop, htake]
    rfl

/-- A text that has a scheme does not begin with a slash. -/
theorem exists_head_of_cutScheme? {cs rest : List Char} {scheme : String}
    (h : cutScheme? cs = some (scheme, rest)) : ∃ c, cs.head? = some c ∧ c ≠ '/' := by
  obtain ⟨word, ⟨⟨c, hhead, halpha⟩, -⟩, rfl, -⟩ := cutScheme?_eq_some_iff.mp h
  refine ⟨c, by rw [List.head?_append, hhead, Option.some_or], ?_⟩
  rintro rfl
  exact absurd halpha (by decide)

/-- The scheme and its colon stand in front of the slashes at the end, whatever stands there. -/
theorem cutScheme?_append {common slashes rest : List Char} {scheme : String}
    (hslash : ∀ c ∈ slashes, c = '/') (h : cutScheme? (common ++ slashes) = some (scheme, rest)) :
    ∃ more, rest = more ++ slashes ∧
      ∀ tail, cutScheme? (common ++ tail) = some (scheme, more ++ tail) := by
  obtain ⟨word, hword, halone, rfl⟩ := cutScheme?_eq_some_iff.mp h
  have hcolon : ':' ∉ slashes := fun hmem => absurd (hslash ':' hmem) (by decide)
  obtain ⟨more, rfl, hmore⟩ : ∃ more, common = word ++ ':' :: more ∧ rest = more ++ slashes := by
    rcases List.append_eq_append_iff.mp halone with ⟨as, -, hslashes⟩ | ⟨bs, rfl, hbs⟩
    · exact absurd (hslashes ▸ List.mem_append_right as List.mem_cons_self) hcolon
    · cases bs with
      | nil =>
        rw [List.nil_append] at hbs
        exact absurd (hbs ▸ List.mem_cons_self) hcolon
      | cons b bs =>
        obtain ⟨rfl, hrest⟩ := List.cons.inj hbs
        exact ⟨bs, rfl, hrest⟩
  refine ⟨more, hmore, fun tail => cutScheme?_eq_some_iff.mpr ⟨word, hword, ?_, rfl⟩⟩
  rw [List.append_assoc, List.cons_append]

/-- The scheme and its colon stand in the common part. -/
theorem cutScheme?_of_extendsBy {path alone joined rest : List Char} {scheme : String}
    (h : ExtendsBy path alone joined) (hscheme : cutScheme? alone = some (scheme, rest)) :
    ∃ rest', cutScheme? joined = some (scheme, rest') ∧ ExtendsBy path rest rest' := by
  obtain ⟨common, slashes, controls, rfl, rfl, hslash, hcontrol⟩ := h
  obtain ⟨more, hmore, hcut⟩ := cutScheme?_append hslash hscheme
  refine ⟨more ++ controls ++ '/' :: path, ?_, more, slashes, controls, hmore, rfl, hslash, hcontrol⟩
  rw [List.append_assoc, List.append_assoc]
  exact hcut _

theorem cutScheme?_of_extends {alone joined rest : List Char} {scheme : String}
    (h : Extends alone joined) (hscheme : cutScheme? alone = some (scheme, rest)) :
    ∃ rest', cutScheme? joined = some (scheme, rest') ∧ Extends rest rest' := by
  obtain ⟨path, hby⟩ := extends_iff.mp h
  obtain ⟨rest', hcut, hrest⟩ := cutScheme?_of_extendsBy hby hscheme
  exact ⟨rest', hcut, extends_iff.mpr ⟨path, hrest⟩⟩

/-! ### The authority -/

/-- The text of an authority, behind all slashes. -/
def authorityText (cs : List Char) : List Char :=
  (cs.dropWhile (isSlash true)).takeWhile fun c => !isAuthorityEnd true c

theorem not_isAuthorityEnd_of_le {c : Char} (h : c.toNat ≤ 32) :
    isAuthorityEnd true c = false := by
  have ne {d : Char} (hd : ¬d.toNat ≤ 32) : c ≠ d := by
    rintro rfl
    exact hd h
  simp [isAuthorityEnd, ne (d := '/') (by decide), ne (d := '?') (by decide),
    ne (d := '#') (by decide), ne (d := '\\') (by decide)]

theorem untilEnd_slashes {slashes : List Char} (h : ∀ c ∈ slashes, c = '/') :
    (slashes.takeWhile fun c => !isAuthorityEnd true c) = [] := by
  cases slashes with
  | nil => rfl
  | cons c cs =>
    rw [h c List.mem_cons_self]
    rfl

theorem untilEnd_controls {controls : List Char} (h : ∀ c ∈ controls, c.toNat ≤ 32)
    (path : List Char) :
    ((controls ++ '/' :: path).takeWhile fun c => !isAuthorityEnd true c) = controls := by
  rw [List.takeWhile_append_of_pos fun c hc => by
    rw [not_isAuthorityEnd_of_le (h c hc), Bool.not_false]]
  exact List.append_nil controls

theorem skip_slashes {slashes : List Char} (h : ∀ c ∈ slashes, c = '/') :
    slashes.dropWhile (isSlash true) = [] := by
  rw [dropWhile_eq_nil_iff_all, List.all_eq_true]
  intro c hc
  rw [h c hc]
  decide

/-- An authority begins in front of the slashes at the end, so what stands there does not matter
for where it begins. -/
theorem skip_append {common slashes : List Char} (hslash : ∀ c ∈ slashes, c = '/')
    (hne : authorityText (common ++ slashes) ≠ []) (tail : List Char) :
    (common ++ tail).dropWhile (isSlash true) = common.dropWhile (isSlash true) ++ tail := by
  have hcommon : ¬(common.dropWhile (isSlash true)).isEmpty = true := by
    intro hempty
    refine hne ?_
    unfold authorityText
    rw [List.dropWhile_append, if_pos hempty, skip_slashes hslash]
    rfl
  rw [List.dropWhile_append, if_neg hcommon]

/-- Behind an authority that the base has, nothing but controls can be read before it ends. -/
theorem authorityText_of_extends {alone joined : List Char} (h : Extends alone joined)
    (hne : authorityText alone ≠ []) :
    ∃ controls, authorityText joined = authorityText alone ++ controls ∧
      ∀ c ∈ controls, c.toNat ≤ 32 := by
  obtain ⟨common, slashes, controls, path, rfl, rfl, hslash, hcontrol⟩ := h
  unfold authorityText
  rw [List.append_assoc, skip_append hslash hne, skip_append hslash hne]
  generalize common.dropWhile (isSlash true) = front
  have cutAt (tail : List Char) : (front ++ tail).takeWhile (fun c => !isAuthorityEnd true c) =
      if (front.takeWhile fun c => !isAuthorityEnd true c).length = front.length then
        front ++ tail.takeWhile fun c => !isAuthorityEnd true c
      else front.takeWhile fun c => !isAuthorityEnd true c := List.takeWhile_append
  rw [cutAt, cutAt, untilEnd_slashes hslash, untilEnd_controls hcontrol]
  split
  · exact ⟨controls, by rw [List.append_nil], hcontrol⟩
  · exact ⟨[], (List.append_nil _).symm, fun c hc => (nomatch hc)⟩

/-! ### Web URLs -/

theorem afterSlashes?_eq_ok {scheme : String} {cs : List Char} {u : Url}
    (h : afterSlashes? scheme cs = .ok u) : u.scheme = scheme ∧ ∃ a,
      authority? scheme (cs.takeWhile fun c => !isAuthorityEnd (isSpecial scheme) c)
        (cs.dropWhile fun c => !isAuthorityEnd (isSpecial scheme) c) = .ok a ∧
      u.authority = some a := by
  unfold afterSlashes? at h
  obtain ⟨a, ha, h⟩ := except_bind_eq_ok_iff.mp h
  cases h
  exact ⟨rfl, a, ha, rfl⟩

/-- Path, query and fragment of a URL of a special scheme are what their texts are read as. -/
structure HasParts (u : Url) (parts : List Char × Option (List Char) × Option (List Char)) :
    Prop where
  path : u.path = rootPath true parts.1
  query : u.query = parts.2.1.map (encodeQuery true)
  fragment : u.fragment = parts.2.2.map encodeFragment

theorem hasParts_of_afterSlashes? {scheme : String} (hspecial : isSpecial scheme = true)
    {cs : List Char} {u : Url} (h : afterSlashes? scheme cs = .ok u) :
    u.HasParts (cutPath (cs.dropWhile fun c => !isAuthorityEnd true c)) := by
  unfold afterSlashes? at h
  rw [hspecial] at h
  obtain ⟨a, -, h⟩ := except_bind_eq_ok_iff.mp h
  cases h
  exact ⟨rfl, rfl, rfl⟩

theorem scheme_of_file? {cs : List Char} {u : Url} (h : file? cs = .ok u) : u.scheme = "file" := by
  unfold file? at h
  dsimp only at h
  split at h
  · split at h
    · split at h
      · cases h
        rfl
      · obtain ⟨host, hhost, h⟩ := except_bind_eq_ok_iff.mp h
        cases h
        rfl
    · cases h
      rfl
  · cases h
    rfl

theorem scheme_of_plain? {scheme : String} {cs : List Char} {u : Url}
    (h : plain? scheme cs = .ok u) : u.scheme = scheme := by
  unfold plain? at h
  split at h
  · exact (afterSlashes?_eq_ok h).1
  · cases h
    rfl

theorem scheme_of_afterScheme? {scheme : String} {cs : List Char} {u : Url}
    (h : afterScheme? scheme cs = .ok u) : u.scheme = scheme := by
  unfold afterScheme? at h
  split at h
  · rename_i hfile
    rw [scheme_of_file? h, eq_of_beq hfile]
  · split at h
    · exact (afterSlashes?_eq_ok h).1
    · exact scheme_of_plain? h

theorem parse?_eq_ok {s : String} {u : Url} (h : parse? s = .ok u) :
    ∃ rest, cutScheme? (clean s.toList) = some (u.scheme, rest) ∧
      afterScheme? u.scheme rest = .ok u := by
  unfold parse? at h
  split at h
  · cases h
  · rename_i scheme rest hcut
    obtain rfl := scheme_of_afterScheme? h
    exact ⟨rest, hcut, h⟩

end Url

namespace Request

open Url

theorem webUrl_eq_ok_iff {s : String} {u : Url} :
    webUrl s = .ok u ↔ Url.parse? s = .ok u ∧ (u.scheme == "http" || u.scheme == "https") = true := by
  unfold webUrl
  cases hurl : Url.parse? s with
  | error fault => exact ⟨fun h => (nomatch h), fun h => (nomatch h.1)⟩
  | ok url =>
    dsimp only
    split
    · rename_i hweb
      refine ⟨fun h => ?_, fun h => ?_⟩
      · cases h
        exact ⟨rfl, hweb⟩
      · cases h.1
        rfl
    · rename_i hweb
      refine ⟨fun h => (nomatch h), fun h => ?_⟩
      cases h.1
      exact absurd h.2 hweb

/-- A web URL has a special scheme and is read from behind the slashes that follow it. -/
theorem afterSlashes?_of_webUrl {s : String} {u : Url} (h : webUrl s = .ok u) :
    isSpecial u.scheme = true ∧ ∃ rest, cutScheme? (clean s.toList) = some (u.scheme, rest) ∧
      afterSlashes? u.scheme (rest.dropWhile (isSlash true)) = .ok u := by
  obtain ⟨hurl, hweb⟩ := webUrl_eq_ok_iff.mp h
  obtain ⟨rest, hcut, hrest⟩ := parse?_eq_ok hurl
  have hspecial : isSpecial u.scheme = true := by
    unfold isSpecial
    rw [hweb]
    rfl
  have hfile : ¬(u.scheme == "file") = true := by
    intro heq
    rw [eq_of_beq heq] at hweb
    exact absurd hweb (by decide)
  unfold afterScheme? at hrest
  rw [if_neg hfile, if_pos hspecial] at hrest
  exact ⟨hspecial, rest, hcut, hrest⟩

/-- The authority is the one that its text has behind the slashes. -/
theorem webUrl_eq_ok {s : String} {u : Url} (h : webUrl s = .ok u) :
    isSpecial u.scheme = true ∧ ∃ rest, cutScheme? (clean s.toList) = some (u.scheme, rest) ∧
      ∃ behind a, authority? u.scheme (authorityText rest) behind = .ok a ∧
        u.authority = some a := by
  obtain ⟨hspecial, rest, hcut, hrest⟩ := afterSlashes?_of_webUrl h
  obtain ⟨-, a, ha, hauthority⟩ := afterSlashes?_eq_ok hrest
  rw [hspecial] at ha
  exact ⟨hspecial, rest, hcut, _, a, ha, hauthority⟩

/-- **What extends a web URL has its scheme and its authority.** -/
theorem webUrl_of_extends {s t : String} {u v : Url} (hu : webUrl s = .ok u)
    (hv : webUrl t = .ok v) (h : Extends (clean s.toList) (clean t.toList)) :
    v.scheme = u.scheme ∧ v.authority = u.authority := by
  obtain ⟨hspecial, rest, hcut, behind, a, ha, hauthority⟩ := webUrl_eq_ok hu
  obtain ⟨-, rest', hcut', behind', a', ha', hauthority'⟩ := webUrl_eq_ok hv
  obtain ⟨rest'', hcut'', hextends⟩ := cutScheme?_of_extends h hcut
  rw [hcut'] at hcut''
  obtain ⟨hscheme, rfl⟩ := Prod.mk.inj (Option.some.inj hcut'')
  rw [hscheme] at ha'
  obtain ⟨controls, htext, hcontrol⟩ :=
    authorityText_of_extends hextends (authority?_ne_nil hspecial ha)
  -- the joined text would be refused for a control at the end of its authority
  have hnone : controls = [] := by
    rcases List.eq_nil_or_concat controls with hnil | ⟨front, last, rfl⟩
    · exact hnil
    · have hlast : (authorityText rest').getLast? = some last := by
        rw [htext, List.concat_eq_append, ← List.append_assoc, List.getLast?_concat]
      exact absurd (hcontrol last (by simp)) (not_control_of_authority? hspecial ha' hlast)
  rw [htext, hnone, List.append_nil] at ha'
  have hsame : a' = a := Except.ok.inj ((authority?_of_text hspecial ha' behind).symm.trans ha)
  exact ⟨hscheme, by rw [hauthority, hauthority', hsame]⟩

/-- **A path stays below its base.** Whatever text it has, a path that is no web URL by itself
leads to the scheme of the base, its user and password, its host and its port, if it leads
anywhere. -/
theorem joinUrl_keeps_authority {base : String} {path : Option String} {u v : Url}
    (hbase : webUrl (Text.trim base) = .ok u)
    (hpath : isAbsolute (Text.trim (path.getD "")) = false)
    (h : joinUrl (some base) path = .ok v) :
    v.scheme = u.scheme ∧ v.authority = u.authority := by
  unfold joinUrl at h
  dsimp only [Option.getD_some] at h
  rw [hpath, if_neg Bool.false_ne_true] at h
  split at h
  · cases h
  · split at h
    · rw [hbase] at h
      cases h
      exact ⟨rfl, rfl⟩
    · refine webUrl_of_extends hbase h ?_
      obtain ⟨-, rest, hcut, -⟩ := webUrl_eq_ok hbase
      unfold joinText
      rw [String.toList_ofList]
      exact clean_joined (exists_head_of_cutScheme? hcut) _

/-- Slashes, backslashes and an at sign do not lead away from a base with a user and a port. -/
theorem joinUrl_keeps_authority_backslashes :
    ∃ u v, webUrl (Text.trim " http://u:p@a.test:8080 ") = .ok u ∧
      joinUrl (some " http://u:p@a.test:8080 ") (some "//\\\\@b.test/..") = .ok v ∧
      u.authority = some ⟨"u", some "p", some (.domain "a.test"), some 8080⟩ ∧
      v.scheme = u.scheme ∧ v.authority = u.authority := by
  have hbase : webUrl (Text.trim " http://u:p@a.test:8080 ") = .ok
      ⟨"http", some ⟨"u", some "p", some (.domain "a.test"), some 8080⟩, "/", none, none⟩ :=
    except_eq_ok_of_toOption (by decide +kernel)
  have hjoined : joinUrl (some " http://u:p@a.test:8080 ") (some "//\\\\@b.test/..") = .ok
      ⟨"http", some ⟨"u", some "p", some (.domain "a.test"), some 8080⟩, "///", none, none⟩ :=
    except_eq_ok_of_toOption (by decide +kernel)
  exact ⟨_, _, hbase, hjoined, rfl,
    joinUrl_keeps_authority hbase (by decide +kernel) hjoined⟩


end Request

end Relay
