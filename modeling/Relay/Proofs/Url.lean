/-
# URLs part where they are written

The query of a printed URL begins behind its first question mark and ends before the
first hash behind that. This is so because neither mark stands in front of the query and
no hash stands in it: reading a URL cuts the text at the marks before it looks at the parts
and encodes the marks that a part may not hold. Appending to the query leaves it so.

Key definitions: `Url.Unmarked`, `Url.WellFormed`.
Key theorems: `wellFormed_of_parse?`, `wellFormed_appendPair`, `wellFormed_joinUrl`,
`wellFormed_appendQuery`.
-/
import Relay.Proofs.Except
import Relay.Proofs.Percent
import Relay.Request

namespace Relay.Url

open Relay.Text

/-! ### Texts without the marks -/

/-- Neither a question mark nor a hash stands in the text. -/
def Unmarked (cs : List Char) : Prop := ∀ c ∈ cs, isPathEnd c = false

/-- The marks stand only where the URL is parted: none in front of the query, and no hash
in it. -/
structure WellFormed (u : Url) : Prop where
  base : Unmarked u.printBase
  query : ∀ q, u.query = some q → '#' ∉ q.toList

theorem unmarked_nil : Unmarked [] := fun _ h => nomatch h

theorem Unmarked.append {cs ds : List Char} (hc : Unmarked cs) (hd : Unmarked ds) :
    Unmarked (cs ++ ds) := fun c h => (List.mem_append.mp h).elim (hc c) (hd c)

theorem Unmarked.cons {c : Char} {cs : List Char} (hc : isPathEnd c = false)
    (hcs : Unmarked cs) : Unmarked (c :: cs) :=
  List.forall_mem_cons.mpr ⟨hc, hcs⟩

theorem Unmarked.not_mem {cs : List Char} (h : Unmarked cs) : '?' ∉ cs :=
  fun hc => absurd (h '?' hc) (by decide)

theorem unmarked_takeWhile (cs : List Char) :
    Unmarked (cs.takeWhile fun c => !isPathEnd c) := by
  intro c hc
  have h := List.all_eq_true.mp (List.all_takeWhile (p := fun c => !isPathEnd c) (l := cs)) c hc
  exact Bool.not_eq_true' _ ▸ h

/-- A text without forbidden characters, if the marks are forbidden. -/
theorem unmarked_of_any {forbidden : Char → Bool}
    (hmarks : ∀ {c}, isPathEnd c = true → forbidden c = true) {cs : List Char}
    (h : cs.any forbidden = false) : Unmarked cs := by
  intro c hc
  cases hmark : isPathEnd c with
  | false => rfl
  | true => exact absurd (hmarks hmark) (List.any_eq_false.mp h c hc)

theorem unmarked_escapes : Unmarked Percent.escapes :=
  unmarked_of_any id (show Percent.escapes.any isPathEnd = false by decide)

/-- What is encoded loses the marks if they are to be encoded. -/
theorem unmarked_encode {set : Percent.EncodeSet} (h : ∀ c, isPathEnd c = true → set c = true)
    (cs : List Char) : Unmarked (Percent.encode set cs) := by
  intro c hc
  rcases Percent.mem_encode hc with ⟨-, hset⟩ | hescape
  · cases hmark : isPathEnd c with
    | false => rfl
    | true =>
      rw [h c hmark] at hset
      cases hset
  · exact unmarked_escapes c hescape

/-- Encoding brings no mark into a text. -/
theorem Unmarked.encode {cs : List Char} (h : Unmarked cs) (set : Percent.EncodeSet) :
    Unmarked (Percent.encode set cs) := by
  intro c hc
  rcases Percent.mem_encode hc with ⟨hmem, -⟩ | hescape
  · exact h c hmem
  · exact unmarked_escapes c hescape

theorem isPathEnd_cases {c : Char} (h : isPathEnd c = true) : c = '?' ∨ c = '#' := by
  unfold isPathEnd at h
  rw [Bool.or_eq_true, decide_eq_true_eq, decide_eq_true_eq] at h
  exact h

theorem userSet_of_isPathEnd (c : Char) (h : isPathEnd c = true) : Percent.userSet c = true := by
  rcases isPathEnd_cases h with rfl | rfl <;> decide

theorem pathSet_of_isPathEnd (c : Char) (h : isPathEnd c = true) : Percent.pathSet c = true := by
  rcases isPathEnd_cases h with rfl | rfl <;> decide

theorem unmarked_join {sep : List Char} (hsep : Unmarked sep) :
    ∀ {ps : List (List Char)}, (∀ p ∈ ps, Unmarked p) → Unmarked (join sep ps)
  | [], _ => unmarked_nil
  | [p], h => h p (List.mem_singleton.mpr rfl)
  | p :: _ :: _, h =>
    ((h p List.mem_cons_self).append hsep).append
      (unmarked_join hsep fun r hr => h r (List.mem_cons_of_mem p hr))

/-! ### Numbers -/

theorem isPathEnd_digitChar (n : Nat) : isPathEnd (Nat.digitChar n) = false := by
  by_cases h : n < 16
  · revert h n
    decide
  · have hstar : Nat.digitChar n = '*' := by
      unfold Nat.digitChar
      repeat rw [if_neg (by omega)]
    rw [hstar]
    decide

theorem unmarked_toDigits {b : Nat} (hb : 1 < b) (n : Nat) : Unmarked (Nat.toDigits b n) := by
  induction n using Nat.strongRecOn with
  | ind n ih =>
    rw [Nat.toDigits_eq_if hb]
    split
    · exact .cons (isPathEnd_digitChar n) unmarked_nil
    · rename_i hlt
      have hdiv : n / b < n := Nat.div_lt_self (by omega) hb
      exact (ih _ hdiv).append (.cons (isPathEnd_digitChar _) unmarked_nil)

/-! ### Hosts -/

/-- A domain holds no mark; addresses have no text. -/
def Host.Unmarked (h : Host) : Prop := ∀ name, h = .domain name → Url.Unmarked name.toList

theorem unmarked_printGroups (groups : List Nat) : Unmarked (Host.printGroups groups) := by
  have colons (gs : List Nat) : Unmarked (join [':'] (gs.map Host.printHex)) := by
    refine unmarked_join (.cons (by decide) unmarked_nil) fun p hp => ?_
    obtain ⟨n, -, rfl⟩ := List.mem_map.mp hp
    exact unmarked_toDigits (by decide) n
  unfold Host.printGroups
  split
  · exact colons groups
  · exact ((colons _).append (.cons (by decide) (.cons (by decide) unmarked_nil))).append (colons _)

theorem Host.Unmarked.print {h : Host} (hm : h.Unmarked) : Url.Unmarked h.print := by
  cases h with
  | domain name => exact hm name rfl
  | ipv4 n =>
    refine unmarked_join (.cons (by decide) unmarked_nil) fun p hp => ?_
    obtain ⟨n, -, rfl⟩ := List.mem_map.mp hp
    exact unmarked_toDigits (by decide) n
  | ipv6 groups =>
    exact .cons (by decide) ((unmarked_printGroups groups).append (.cons (by decide) unmarked_nil))

theorem Host.unmarked_ipv6 {cs : List Char} {h : Host} (hread : Host.ipv6? cs = .ok h) :
    h.Unmarked := by
  rintro name rfl
  unfold Host.ipv6? at hread
  repeat' split at hread
  all_goals cases hread

theorem Host.unmarked_ipv4 {cs : List Char} {h : Host} (hread : Host.ipv4? cs = .ok h) :
    h.Unmarked := by
  rintro name rfl
  unfold Host.ipv4? at hread
  dsimp only at hread
  repeat' split at hread
  all_goals cases hread

theorem isForbiddenDomain_of_isPathEnd {c : Char} (h : isPathEnd c = true) :
    Host.isForbiddenDomain c = true := by
  rcases isPathEnd_cases h with rfl | rfl <;> decide

theorem isForbiddenHost_of_isPathEnd {c : Char} (h : isPathEnd c = true) :
    Host.isForbiddenHost c = true := by
  rcases isPathEnd_cases h with rfl | rfl <;> decide

theorem unmarked_domain {cs ascii : List Char} (h : Host.domain? cs = .ok ascii) :
    Unmarked ascii := by
  unfold Host.domain? at h
  dsimp only at h
  split at h
  · rw [pure_bind] at h
    split at h
    · split at h
      · cases h
      · rename_i hany
        cases h
        exact unmarked_of_any isForbiddenDomain_of_isPathEnd (Bool.eq_false_iff.mpr hany)
    · cases h
  · cases h

theorem Host.unmarked_special {cs : List Char} {h : Host} (hread : Host.special? cs = .ok h) :
    h.Unmarked := by
  unfold Host.special? at hread
  split at hread
  · obtain ⟨inner, -, hread⟩ := except_bind_eq_ok_iff.mp hread
    exact Host.unmarked_ipv6 hread
  · obtain ⟨ascii, hascii, hread⟩ := except_bind_eq_ok_iff.mp hread
    dsimp only at hread
    split at hread
    · cases hread
    · split at hread
      · exact Host.unmarked_ipv4 hread
      · cases hread
        rintro name hname
        cases hname
        rw [String.toList_ofList]
        exact unmarked_domain hascii

theorem Host.unmarked_verbatim {cs : List Char} {h : Host} (hread : Host.verbatim? cs = .ok h) :
    h.Unmarked := by
  unfold Host.verbatim? at hread
  split at hread
  · obtain ⟨inner, -, hread⟩ := except_bind_eq_ok_iff.mp hread
    exact Host.unmarked_ipv6 hread
  · split at hread
    · cases hread
    · rename_i hany
      cases hread
      rintro name hname
      cases hname
      rw [String.toList_ofList]
      exact (unmarked_of_any isForbiddenHost_of_isPathEnd (Bool.eq_false_iff.mpr hany)).encode _

/-! ### The parts in front of the query -/

theorem unmarked_encodeUser (cs : List Char) : Unmarked (encodeUser cs).toList := by
  rw [encodeUser, String.toList_ofList]
  exact unmarked_encode userSet_of_isPathEnd cs

/-- User and password hold no mark. -/
theorem unmarked_userInfo (cs : List Char) :
    Unmarked (userInfo cs).1.toList ∧ ∀ p, (userInfo cs).2 = some p → Unmarked p.toList := by
  unfold userInfo
  split
  · refine ⟨unmarked_encodeUser _, fun p hp => ?_⟩
    cases hp
    exact unmarked_encodeUser _
  · refine ⟨unmarked_encodeUser _, fun p hp => ?_⟩
    cases hp

theorem unmarked_authority {a : Authority} (huser : Unmarked a.user.toList)
    (hpassword : ∀ p, a.password = some p → Unmarked p.toList)
    (hhost : ∀ h, a.host = some h → h.Unmarked) : Unmarked a.print := by
  obtain ⟨user, password, host, port⟩ := a
  have hat {info : List Char} (h : Unmarked info) :
      Unmarked (if info.isEmpty then [] else info ++ ['@']) := by
    split
    · exact unmarked_nil
    · exact h.append (.cons (by decide) unmarked_nil)
  unfold Authority.print
  dsimp only
  refine ((hat ?_).append ?_).append ?_
  · cases password with
    | none => exact huser.append unmarked_nil
    | some p => exact huser.append (.cons (by decide) (hpassword p rfl))
  · cases host with
    | none => exact unmarked_nil
    | some h => exact (hhost h rfl).print
  · cases port with
    | none => exact unmarked_nil
    | some n => exact .cons (by decide) (unmarked_toDigits (by decide) n)

theorem unmarked_of_authority? {scheme : String} {cs rest : List Char} {a : Authority}
    (h : authority? scheme cs rest = .ok a) : Unmarked a.print := by
  unfold authority? at h
  dsimp only at h
  have hinfo := unmarked_userInfo ((cutUser cs).1.getD [])
  split at h
  · cases h
  · split at h
    · split at h
      · cases h
      · cases h
        exact unmarked_authority hinfo.1 hinfo.2 fun h hh => by cases hh
    · split at h
      all_goals
        obtain ⟨host, hhost, h⟩ := except_bind_eq_ok_iff.mp h
        obtain ⟨port, -, h⟩ := except_bind_eq_ok_iff.mp h
        cases h
        refine unmarked_authority hinfo.1 hinfo.2 fun h hh => ?_
        cases hh
      · exact Host.unmarked_special hhost
      · exact Host.unmarked_verbatim hhost

/-- Segments are encoded before they are kept. -/
theorem unmarked_resolveDots : ∀ (ss done : List (List Char)), (∀ s ∈ done, Unmarked s) →
    ∀ s ∈ resolveDots done ss, Unmarked s
  | [], _, hdone => fun s hs => hdone s (List.mem_reverse.mp hs)
  | t :: ss, done, hdone => by
    have hempty {ds : List (List Char)} (h : ∀ s ∈ ds, Unmarked s) :
        ∀ s ∈ (if ss.isEmpty then [] :: ds else ds), Unmarked s := by
      split
      · exact List.forall_mem_cons.mpr ⟨unmarked_nil, h⟩
      · exact h
    unfold resolveDots
    dsimp only
    split
    · exact unmarked_resolveDots ss _ (hempty fun s hs => hdone s (List.mem_of_mem_drop hs))
    · split
      · exact unmarked_resolveDots ss _ (hempty hdone)
      · exact unmarked_resolveDots ss _
          (List.forall_mem_cons.mpr ⟨unmarked_encode pathSet_of_isPathEnd t, hdone⟩)

theorem unmarked_rootPath (special : Bool) (cs : List Char) :
    Unmarked (rootPath special cs).toList := by
  unfold rootPath slashed
  rw [String.toList_ofList]
  intro c hc
  obtain ⟨s, hs, hc⟩ := List.mem_flatMap.mp hc
  have hsegment : Unmarked s := unmarked_resolveDots _ [] (fun _ h => nomatch h) s hs
  exact hsegment.cons (by decide) c hc

theorem unmarked_lowerChar : ∀ n < 128, isSchemeChar (Char.ofNat n) = true →
    isPathEnd (lowerChar (Char.ofNat n)) = false := by
  decide

theorem toNat_lt_of_isSchemeChar {c : Char} (h : isSchemeChar c = true) : c.toNat < 128 := by
  simp only [isSchemeChar, isAlpha, Host.isDigit, Bool.or_eq_true, Bool.and_eq_true,
    decide_eq_true_eq] at h
  rcases h with (((((⟨-, h⟩ | ⟨-, h⟩) | ⟨-, h⟩) | h) | h) | h)
  · exact Percent.ascii_of_le h (by decide)
  · exact Percent.ascii_of_le h (by decide)
  · exact Percent.ascii_of_le h (by decide)
  · subst h
    decide
  · subst h
    decide
  · subst h
    decide

theorem unmarked_of_cutScheme? {cs rest : List Char} {scheme : String}
    (h : cutScheme? cs = some (scheme, rest)) : Unmarked scheme.toList := by
  unfold cutScheme? at h
  split at h
  · cases h
  · split at h
    · split at h
      · cases h
        rw [String.toList_ofList]
        intro d hd
        obtain ⟨c, hc, rfl⟩ := List.mem_map.mp hd
        have hscheme : isSchemeChar c = true := List.all_eq_true.mp List.all_takeWhile c hc
        have h := unmarked_lowerChar c.toNat (toNat_lt_of_isSchemeChar hscheme)
        rw [Char.ofNat_toNat] at h
        exact h hscheme
      · cases h
    · cases h

/-! ### The whole URL -/

theorem hash_not_mem_encodeQuery (special : Bool) (cs : List Char) :
    '#' ∉ (encodeQuery special cs).toList := by
  rw [encodeQuery, String.toList_ofList]
  intro h
  rcases Percent.mem_encode h with ⟨-, hset⟩ | hescape
  · cases special <;> exact absurd hset (by decide)
  · exact absurd hescape (by decide)

/-- A query that is encoded, if there is one, holds no hash. -/
theorem hash_not_mem_of_map {special : Bool} {query : Option (List Char)} :
    ∀ q, query.map (encodeQuery special) = some q → '#' ∉ q.toList := by
  intro q hq
  obtain ⟨cs, -, rfl⟩ := Option.map_eq_some_iff.mp hq
  exact hash_not_mem_encodeQuery special cs

theorem wellFormed_of_parts {u : Url} (hscheme : Unmarked u.scheme.toList)
    (hauthority : ∀ a, u.authority = some a → Unmarked a.print)
    (hpath : Unmarked u.path.toList) (hquery : ∀ q, u.query = some q → '#' ∉ q.toList) :
    u.WellFormed := by
  refine ⟨?_, hquery⟩
  unfold printBase
  refine (hscheme.append (.cons (by decide) ?_)).append hpath
  split
  · rename_i a ha
    exact .cons (by decide) (.cons (by decide) (hauthority a ha))
  · split
    · exact .cons (by decide) (.cons (by decide) unmarked_nil)
    · exact unmarked_nil

theorem unmarked_cutPath (cs : List Char) : Unmarked (cutPath cs).1 := by
  unfold cutPath
  dsimp only
  split <;> exact unmarked_takeWhile cs

theorem wellFormed_afterSlashes {scheme : String} (hscheme : Unmarked scheme.toList)
    {cs : List Char} {u : Url} (h : afterSlashes? scheme cs = .ok u) : u.WellFormed := by
  have hpath (special : Bool) (path : List Char) :
      Unmarked (if !special && path.isEmpty then "" else rootPath special path).toList := by
    split
    · exact unmarked_nil
    · exact unmarked_rootPath special path
  obtain ⟨a, ha, h⟩ := except_bind_eq_ok_iff.mp h
  obtain rfl := Except.ok.inj h
  refine wellFormed_of_parts hscheme (fun b hb => ?_) (hpath _ _) hash_not_mem_of_map
  cases hb
  exact unmarked_of_authority? ha

theorem wellFormed_file {cs : List Char} {u : Url} (h : file? cs = .ok u) : u.WellFormed := by
  have assemble {host : Option Host} (hhost : ∀ h, host = some h → h.Unmarked)
      (rest : List Char) : WellFormed {
        scheme := "file"
        authority := some { host }
        path := rootPath true (cutPath rest).1
        query := (cutPath rest).2.1.map (encodeQuery true)
        fragment := (cutPath rest).2.2.map encodeFragment } := by
    have hscheme : Unmarked "file".toList :=
      unmarked_of_any id (show "file".toList.any isPathEnd = false by decide)
    refine wellFormed_of_parts hscheme (fun a ha => ?_) (unmarked_rootPath _ _)
      hash_not_mem_of_map
    cases ha
    exact unmarked_authority unmarked_nil (fun p hp => by cases hp) hhost
  have hnone : ∀ h, (none : Option Host) = some h → h.Unmarked := fun h hh => by cases hh
  unfold file? at h
  dsimp only at h
  split at h
  · split at h
    · split at h
      · obtain rfl := Except.ok.inj h
        exact assemble hnone _
      · obtain ⟨host, hhost, h⟩ := except_bind_eq_ok_iff.mp h
        obtain rfl := Except.ok.inj h
        refine assemble (fun h hh => ?_) _
        split at hh
        · cases hh
        · cases hh
          exact Host.unmarked_special hhost
    · obtain rfl := Except.ok.inj h
      exact assemble hnone _
  · obtain rfl := Except.ok.inj h
    exact assemble hnone _

theorem wellFormed_plain {scheme : String} (hscheme : Unmarked scheme.toList) {cs : List Char}
    {u : Url} (h : plain? scheme cs = .ok u) : u.WellFormed := by
  have hpath {path : List Char} (hm : Unmarked path) :
      Unmarked (if path.head? == some '/' then rootPath false path
        else String.ofList (Percent.encode Percent.controls path)).toList := by
    split
    · exact unmarked_rootPath false path
    · rw [String.toList_ofList]
      exact hm.encode _
  unfold plain? at h
  split at h
  · exact wellFormed_afterSlashes hscheme h
  · obtain rfl := Except.ok.inj h
    exact wellFormed_of_parts hscheme (fun a ha => by cases ha) (hpath (unmarked_cutPath cs))
      hash_not_mem_of_map

/-- **What is read from a text is well formed.** -/
theorem wellFormed_of_parse? {s : String} {u : Url} (h : parse? s = .ok u) : u.WellFormed := by
  unfold parse? at h
  split at h
  · cases h
  · rename_i scheme rest hcut
    have hscheme := unmarked_of_cutScheme? hcut
    unfold afterScheme? at h
    split at h
    · exact wellFormed_file h
    · split at h
      · exact wellFormed_afterSlashes hscheme h
      · exact wellFormed_plain hscheme h

/-! ### Longer queries -/

variable {u : Url}

theorem WellFormed.hash_not_mem (hu : u.WellFormed) : '#' ∉ (u.query.getD "").toList := by
  cases hq : u.query with
  | none => exact List.not_mem_nil
  | some q => exact hu.query q hq

theorem wellFormed_setQuery (hu : u.WellFormed) (text : List Char) :
    (u.setQuery text).WellFormed :=
  ⟨hu.base, fun q hq => by
    cases hq
    exact hash_not_mem_encodeQuery _ _⟩

theorem wellFormed_appendPair (hu : u.WellFormed) (name value : String) :
    (u.appendPair name value).WellFormed := by
  refine ⟨hu.base, fun q hq => ?_⟩
  cases hq
  rw [String.toList_ofList]
  refine List.not_mem_append (List.not_mem_append hu.hash_not_mem ?_)
    (Percent.not_mem_formPair (by decide) (by decide) (by decide) (by decide) name value)
  split
  · exact List.not_mem_nil
  · decide

theorem wellFormed_appendEncoded (hu : u.WellFormed) (pairs : List (String × String)) :
    (u.appendEncoded pairs).WellFormed := by
  unfold appendEncoded
  induction pairs generalizing u with
  | nil => exact hu
  | cons p pairs ih => exact ih (wellFormed_appendPair hu p.1 p.2)

theorem wellFormed_appendVerbatim (hu : u.WellFormed) (pairs : List (String × String)) :
    (u.appendVerbatim pairs).WellFormed := wellFormed_setQuery hu _

/-- **Web URLs are well formed**, however base and path were joined. -/
theorem wellFormed_joinUrl {base path : Option String} (h : Request.joinUrl base path = .ok u) :
    u.WellFormed := by
  have hweb {raw : String} (h : Request.webUrl raw = .ok u) : u.WellFormed := by
    unfold Request.webUrl at h
    split at h
    · cases h
    · rename_i url hurl
      split at h
      · cases h
        exact wellFormed_of_parse? hurl
      · cases h
  unfold Request.joinUrl at h
  dsimp only at h
  split at h
  · exact hweb h
  · split at h
    · cases h
    · split at h
      · exact hweb h
      · exact hweb h

/-- **Parameters leave a URL well formed**, encoded or as they are. -/
theorem wellFormed_appendQuery (hu : u.WellFormed) (parameters : List Property)
    (encode : Bool) : (Request.appendQuery u parameters encode).WellFormed := by
  unfold Request.appendQuery
  dsimp only
  split
  · exact hu
  · split
    · exact wellFormed_appendEncoded hu _
    · exact wellFormed_appendVerbatim hu _

end Relay.Url
