/-
# Hosts without controls

A control or a space is never part of the host of a special scheme. It is not a letter of
an escape, so percent-decoding keeps it; it is no part of a longer character, so it is read as it
is; case and width do not touch it, and a label in ASCII has all ASCII characters of the label
that it stands for. At last it is found, and the host is refused. So an authority does not end
in one either: user information ends in an at sign, and a port in a digit or its colon.

Key theorems: `Host.mem_domain?`, `Host.not_control_of_special?`, `cutUser_snd_getLast?`,
`not_control_of_authority?`.
-/
import Relay.Proofs.Except
import Relay.Proofs.Percent
import Relay.Url.Basic

namespace Relay.Url

open Relay.Text

/-! ### Percent-decoding -/

/-- A byte that is no letter of an escape is kept. -/
theorem Percent.mem_decodeBytes {b : UInt8} (hpercent : b ≠ 37) (hhex : hexValue? b = none)
    (bytes : Utf8.Bytes) : b ∈ bytes → b ∈ decodeBytes bytes := by
  fun_induction decodeBytes bytes with
  | case1 => exact id
  | case2 c d rest h l hl hh ih =>
    intro hmem
    have hc : b ≠ c := by
      rintro rfl
      rw [hhex] at hh
      cases hh
    have hd : b ≠ d := by
      rintro rfl
      rw [hhex] at hl
      cases hl
    simp only [List.mem_cons, hpercent, hc, hd, false_or] at hmem
    exact List.mem_cons_of_mem _ (ih hmem)
  | case3 c d rest _ ih | case4 first c d rest _ ih | case5 first rest _ ih =>
    intro hmem
    rcases List.mem_cons.mp hmem with rfl | hrest
    · exact List.mem_cons_self
    · exact List.mem_cons_of_mem _ (ih hrest)

/-- A control or a space. -/
theorem isControlOrSpace_iff {c : Char} : isControlOrSpace c = true ↔ c.toNat ≤ 32 := by
  unfold isControlOrSpace
  rw [decide_eq_true_iff, Char.le_def, UInt32.le_iff_toNat_le]
  exact Iff.rfl

theorem Percent.hexValue?_of_le {n : Nat} (h : n ≤ 32) : hexValue? (UInt8.ofNat n) = none := by
  revert n
  decide

/-- Decoding keeps controls and spaces. -/
theorem Percent.mem_decode {cs : List Char} {c : Char} (h : c.toNat ≤ 32) (hmem : c ∈ cs) :
    UInt8.ofNat c.toNat ∈ decode cs := by
  have hpercent : UInt8.ofNat c.toNat ≠ 37 := by
    refine ofNat_ne_percent (by omega) ?_
    rintro rfl
    exact absurd h (by decide)
  refine mem_decodeBytes hpercent (hexValue?_of_le h) _ (List.mem_flatMap.mpr ⟨c, hmem, ?_⟩)
  rw [Utf8.utf8EncodeChar_of_lt (by omega)]
  exact List.mem_singleton.mpr rfl

/-! ### Punycode -/

namespace Punycode

theorem pass_out (n basic : Nat) (label : List Char) :
    ∀ w : Writing, ∃ more, (pass n basic label w).out = w.out ++ more := by
  unfold pass
  induction label with
  | nil => exact fun w => ⟨[], (List.append_nil _).symm⟩
  | cons c cs ih =>
    intro w
    rw [List.foldl_cons]
    split
    · exact ih _
    · split
      · obtain ⟨more, hmore⟩ := ih { w with
          out := w.out ++ digits w.bias 36 w.delta
          delta := 0
          bias := adapt w.delta (w.done + 1) (w.done == basic)
          done := w.done + 1 }
        exact ⟨digits w.bias 36 w.delta ++ more, by rw [hmore, List.append_assoc]⟩
      · exact ih w

theorem passes_out : ∀ (fuel n basic : Nat) (label : List Char) (w : Writing),
    ∃ more, (passes fuel n basic label w).out = w.out ++ more
  | 0, _, _, _, _ => ⟨[], (List.append_nil _).symm⟩
  | fuel + 1, n, basic, label, w => by
    unfold passes
    split
    · exact ⟨[], (List.append_nil _).symm⟩
    · rename_i m _
      dsimp only
      obtain ⟨first, hfirst⟩ :=
        pass_out m basic label { w with delta := w.delta + (m - n) * (w.done + 1) }
      obtain ⟨rest, hrest⟩ := passes_out fuel (m + 1) basic label
        { pass m basic label { w with delta := w.delta + (m - n) * (w.done + 1) } with
          delta := (pass m basic label
            { w with delta := w.delta + (m - n) * (w.done + 1) }).delta + 1 }
      refine ⟨first ++ rest, ?_⟩
      rw [hrest]
      dsimp only
      rw [hfirst, List.append_assoc]

/-- The ASCII characters of a label stand in front. -/
theorem mem_encode {label : List Char} {c : Char} (hmem : c ∈ label) (hc : c.toNat < 128) :
    c ∈ encode label := by
  have hascii : c ∈ label.filter fun c => c.toNat < 128 :=
    List.mem_filter.mpr ⟨hmem, decide_eq_true hc⟩
  have hempty : (label.filter fun c => c.toNat < 128).isEmpty = false :=
    List.isEmpty_eq_false_iff.mpr (List.ne_nil_of_mem hascii)
  unfold encode
  dsimp only
  rw [hempty, if_neg Bool.false_ne_true]
  obtain ⟨more, hmore⟩ := passes_out label.length 128
    (label.filter fun c => c.toNat < 128).length label
    ⟨label.filter (fun c => c.toNat < 128) ++ ['-'], 0, 72,
      (label.filter fun c => c.toNat < 128).length⟩
  rw [hmore]
  exact List.mem_append_left _ (List.mem_append_left _ hascii)

end Punycode

/-! ### Hosts -/

namespace Host

theorem mem_asciiLabel? {label ascii : List Char} {c : Char} (h : asciiLabel? label = some ascii)
    (hmem : c ∈ label) (hc : c.toNat < 128) : c ∈ ascii := by
  unfold asciiLabel? at h
  split at h
  · have hsame : ascii = label := by
      split at h
      · split at h
        · split at h
          · exact (Option.some.inj h).symm
          · cases h
        · cases h
      · exact (Option.some.inj h).symm
    rwa [hsame]
  · rw [← Option.some.inj h]
    exact List.mem_append_right _ (Punycode.mem_encode hmem hc)

theorem exists_mem_of_mapM {f : List Char → Option (List Char)} {x : List Char} :
    ∀ {xs ys : List (List Char)}, xs.mapM f = some ys → x ∈ xs → ∃ y ∈ ys, f x = some y
  | [], _, _, hmem => (nomatch hmem)
  | x' :: xs, ys, h, hmem => by
    rw [List.mapM_cons] at h
    obtain ⟨y, hy, h⟩ := Option.bind_eq_some_iff.mp h
    obtain ⟨tail, htail, h⟩ := Option.bind_eq_some_iff.mp h
    rw [← Option.some.inj h]
    rcases List.mem_cons.mp hmem with rfl | hrest
    · exact ⟨y, List.mem_cons_self, hy⟩
    · obtain ⟨z, hz, hfz⟩ := exists_mem_of_mapM htail hrest
      exact ⟨z, List.mem_cons_of_mem y hz, hfz⟩

/-- Controls and spaces have neither case nor width. -/
theorem mapDomainChar_of_le {c : Char} (h : c.toNat ≤ 32) : mapDomainChar c = [c] := by
  have hlower : lowerChar c = c := by
    unfold lowerChar
    rw [if_neg]
    rintro ⟨hA, -⟩
    have hA' := UInt32.le_iff_toNat_le.mp (Char.le_def.mp hA)
    have h65 : 'A'.val.toNat = 65 := rfl
    rw [h65, Char.toNat_val] at hA'
    omega
  unfold mapDomainChar
  rw [if_pos (by omega), hlower]

/-- The steps of writing a domain. -/
theorem domain?_eq_ok {cs ascii : List Char} (h : domain? cs = .ok ascii) :
    ∃ text labels, Utf8.decode (Percent.decode cs) = .ok text ∧
      (pieces '.' (text.toList.flatMap mapDomainChar)).mapM asciiLabel? = some labels ∧
      ascii = join ['.'] labels ∧ ascii.any isForbiddenDomain = false := by
  unfold domain? at h
  dsimp only at h
  split at h
  · rename_i text hdecode
    rw [pure_bind] at h
    split at h
    · rename_i labels hlabels
      split at h
      · cases h
      · rename_i hany
        cases h
        exact ⟨text, labels, hdecode, hlabels, rfl, Bool.eq_false_iff.mpr hany⟩
    · cases h
  · cases h

/-- **A domain that can be written has no control or space.** -/
theorem not_control_of_domain? {cs ascii : List Char} {c : Char} (h : domain? cs = .ok ascii)
    (hmem : c ∈ cs) : ¬c.toNat ≤ 32 := by
  intro hc
  obtain ⟨text, labels, hdecode, hlabels, rfl, hallowed⟩ := domain?_eq_ok h
  have hbyte : UInt8.ofNat c.toNat < 0x80 := by
    rw [UInt8.lt_iff_toNat_lt, UInt8.toNat_ofNat']
    have h80 : (0x80 : UInt8).toNat = 128 := rfl
    omega
  have htext : c ∈ text.toList := by
    have hchar := Utf8.mem_of_decode hbyte hdecode (Percent.mem_decode hc hmem)
    rwa [UInt8.toNat_ofNat', Nat.mod_eq_of_lt (by omega), Char.ofNat_toNat] at hchar
  have hmapped : c ∈ text.toList.flatMap mapDomainChar := by
    refine List.mem_flatMap.mpr ⟨c, htext, ?_⟩
    rw [mapDomainChar_of_le hc]
    exact List.mem_singleton.mpr rfl
  have hdot : c ≠ '.' := by
    rintro rfl
    exact absurd hc (by decide)
  obtain ⟨label, hlabel, hmemLabel⟩ := exists_mem_pieces hdot hmapped
  obtain ⟨ascii, hascii, hwritten⟩ := exists_mem_of_mapM hlabels hlabel
  have hmemAscii : c ∈ ascii := mem_asciiLabel? hwritten hmemLabel (by omega)
  have hforbidden : isForbiddenDomain c = true := by
    unfold isForbiddenDomain
    rw [decide_eq_true hc, Bool.true_or, Bool.true_or]
  exact absurd hforbidden (List.any_eq_false.mp hallowed c (mem_join_of_mem hmemAscii hascii))

/-- The host of a special scheme does not end in a control or a space. -/
theorem not_control_of_special? {cs : List Char} {host : Host} {c : Char}
    (h : special? cs = .ok host) (hlast : cs.getLast? = some c) : ¬c.toNat ≤ 32 := by
  intro hc
  unfold special? at h
  split at h
  · rename_i inner hinner
    obtain ⟨text, rfl, -⟩ := except_bind_eq_ok_iff.mp h
    -- in brackets the last character is the closing one
    unfold bracketed at hinner
    split at hinner
    · rename_i rest
      split at hinner
      · rename_i inner hreverse
        have hrest : rest = inner.reverse ++ [']'] := by
          rw [← List.reverse_reverse rest, hreverse, List.reverse_cons]
        rw [hrest, ← List.cons_append, List.getLast?_concat] at hlast
        cases hlast
        exact absurd hc (by decide)
      · cases hinner
    · cases hinner
  · obtain ⟨ascii, hascii, -⟩ := except_bind_eq_ok_iff.mp h
    exact not_control_of_domain? hascii (List.mem_of_getLast? hlast) hc

end Host

/-! ### Authorities -/

/-- The last character stands behind the last at sign, unless it is one. -/
theorem cutUser_snd_getLast? {cs : List Char} {c : Char} (hlast : cs.getLast? = some c)
    (hc : c ≠ '@') : (cutUser cs).2.getLast? = some c := by
  unfold cutUser
  split
  · dsimp only
    rw [List.getLast?_reverse]
    rw [← List.head?_reverse] at hlast
    obtain ⟨rest, hrest⟩ : ∃ rest, cs.reverse = c :: rest := List.head?_eq_some_iff.mp hlast
    rw [hrest, List.takeWhile_cons, if_pos (by simpa using hc), List.head?_cons]
  · exact hlast

theorem cutPort_append : ∀ (inside : Bool) (cs : List Char), (cutPort inside cs).1 ++
    (match (cutPort inside cs).2 with | none => [] | some port => ':' :: port) = cs
  | _, [] => rfl
  | inside, c :: cs => by
    unfold cutPort
    by_cases h : (c = ':' && !inside) = true
    · rw [if_pos h]
      have hc : c = ':' := by simpa using (Bool.and_eq_true_iff.mp h).1
      rw [hc]
      rfl
    · rw [if_neg h]
      dsimp only
      rw [List.cons_append, cutPort_append _ cs]

theorem port?_digits {scheme : String} {cs : List Char} {port : Option Nat}
    (h : port? scheme cs = .ok port) : cs.all Host.isDigit = true := by
  unfold port? at h
  cases hall : cs.all Host.isDigit with
  | true => rfl
  | false =>
    rw [hall] at h
    cases h

theorem not_isDigit_of_le {c : Char} (h : c.toNat ≤ 32) : ¬Host.isDigit c = true := by
  unfold Host.isDigit
  rw [Bool.and_eq_true, decide_eq_true_iff, decide_eq_true_iff]
  rintro ⟨h0, -⟩
  have h0' := UInt32.le_iff_toNat_le.mp (Char.le_def.mp h0)
  have h48 : '0'.val.toNat = 48 := rfl
  rw [h48, Char.toNat_val] at h0'
  omega

/-- The steps of reading the authority of a special scheme. -/
theorem authority?_eq_ok {scheme : String} (hspecial : isSpecial scheme = true)
    {cs rest : List Char} {a : Authority} (h : authority? scheme cs rest = .ok a) :
    (cutPort false (cutUser cs).2).1 ≠ [] ∧ ∃ host port,
      Host.special? (cutPort false (cutUser cs).2).1 = .ok host ∧
      port? scheme ((cutPort false (cutUser cs).2).2.getD []) = .ok port ∧
      a = ⟨(userInfo ((cutUser cs).1.getD [])).1, (userInfo ((cutUser cs).1.getD [])).2,
        some host, port⟩ := by
  unfold authority? at h
  dsimp only at h
  rw [hspecial] at h
  split at h
  · cases h
  · split at h
    · cases h
    · rename_i hhostText
      obtain ⟨host, hhost, h⟩ := except_bind_eq_ok_iff.mp h
      obtain ⟨port, hport, h⟩ := except_bind_eq_ok_iff.mp h
      cases h
      exact ⟨fun hnil => hhostText (List.isEmpty_iff.mpr hnil), host, port, hhost, hport, rfl⟩

/-- An authority of a special scheme has a text. -/
theorem authority?_ne_nil {scheme : String} (hspecial : isSpecial scheme = true)
    {cs rest : List Char} {a : Authority} (h : authority? scheme cs rest = .ok a) : cs ≠ [] := by
  rintro rfl
  exact (authority?_eq_ok hspecial h).1 rfl

/-- What stands behind the text of an authority does not matter for how it is read. -/
theorem authority?_of_text {scheme : String} (hspecial : isSpecial scheme = true)
    {cs rest : List Char} {a : Authority} (h : authority? scheme cs rest = .ok a)
    (rest' : List Char) : authority? scheme cs rest' = .ok a := by
  obtain ⟨hne, host, port, hhost, hport, rfl⟩ := authority?_eq_ok hspecial h
  have hhostPort : (cutUser cs).2.isEmpty = false := by
    rw [List.isEmpty_eq_false_iff]
    intro hnil
    rw [hnil] at hne
    exact hne rfl
  have hhostText : ¬(cutPort false (cutUser cs).2).1.isEmpty = true :=
    fun hempty => hne (List.isEmpty_iff.mp hempty)
  unfold authority?
  dsimp only
  rw [hspecial, hhostPort, Bool.and_false, Bool.false_and, if_neg Bool.false_ne_true,
    if_neg hhostText, if_pos rfl, hhost, hport]
  rfl

/-- **No authority of a special scheme ends in a control or a space.** -/
theorem not_control_of_authority? {scheme : String} (hspecial : isSpecial scheme = true)
    {cs rest : List Char} {a : Authority} (h : authority? scheme cs rest = .ok a) {c : Char}
    (hlast : cs.getLast? = some c) : ¬c.toNat ≤ 32 := by
  intro hc
  have ne {d : Char} (hd : ¬d.toNat ≤ 32) : c ≠ d := by
    rintro rfl
    exact hd hc
  obtain ⟨-, host, port, hhost, hport, -⟩ := authority?_eq_ok hspecial h
  have hend := cutUser_snd_getLast? hlast (ne (by decide))
  rw [← cutPort_append false (cutUser cs).2, List.getLast?_append] at hend
  cases htext : (cutPort false (cutUser cs).2).2 with
  | none =>
    rw [htext] at hend
    exact Host.not_control_of_special? hhost hend hc
  | some text =>
    rw [htext] at hend hport
    cases text with
    | nil => exact ne (d := ':') (by decide) (Option.some.inj hend).symm
    | cons d ds =>
      rw [List.getLast?_cons_cons, List.getLast?_eq_some_getLast (List.cons_ne_nil d ds),
        Option.some_or] at hend
      have hmem : c ∈ d :: ds := Option.some.inj hend ▸ List.getLast_mem (List.cons_ne_nil d ds)
      have hdigit := List.all_eq_true.mp (port?_digits hport) c hmem
      exact absurd hdigit (not_isDigit_of_le hc)

end Relay.Url
