/-
# What percent-encoded text is made of

Encoding keeps a character or writes it out of a small alphabet: the percent sign, the
hexadecimal digits and, in forms, the plus. So a character of an encode set that is none of
these does not occur in what was encoded, and the characters that part a query cannot come
out of a form.

A form is read back, whatever the text was. It writes a space as a plus, and reading takes
each plus for a space first: that finds the spaces and nothing else, since a plus of the text
itself was escaped. Then the escapes give the bytes back, and the bytes the text.

Key definitions: `Url.Percent.escapes`.
Key theorems: `mem_encode`, `encode_eq_self`, `mem_formEncode`, `not_mem_formPair`,
`length_le_formEncode`, `decodeBytes_formChar`, `formDecode_formEncode`.
-/
import Relay.Proofs.Utf8
import Relay.Url.Percent

namespace Relay.Url.Percent

open Relay.Text

/-- What does not stand behind an ASCII character is one. -/
theorem ascii_of_le {c d : Char} (h : c ≤ d) (hd : d.toNat < 128) : c.toNat < 128 :=
  Nat.lt_of_le_of_lt (UInt32.le_iff_toNat_le.mp h) hd

/-- The characters that bytes are written with. -/
def escapes : List Char :=
  ['%', '0', '1', '2', '3', '4', '5', '6', '7', '8', '9', 'A', 'B', 'C', 'D', 'E', 'F']

theorem hexDigit_mem_escapes : ∀ n : Nat, n < 16 → hexDigit n ∈ escapes := by
  decide

theorem mem_encodeByte {b : UInt8} {c : Char} (h : c ∈ encodeByte b) : c ∈ escapes := by
  have hb : b.toNat < 256 := b.toNat_lt
  unfold encodeByte at h
  simp only [List.mem_cons, List.not_mem_nil, or_false] at h
  rcases h with rfl | rfl | rfl
  · decide
  · exact hexDigit_mem_escapes _ (by omega)
  · exact hexDigit_mem_escapes _ (by omega)

theorem mem_flatMap_encodeByte {bytes : List UInt8} {c : Char}
    (h : c ∈ bytes.flatMap encodeByte) : c ∈ escapes := by
  obtain ⟨b, -, hc⟩ := List.mem_flatMap.mp h
  exact mem_encodeByte hc

/-- What stands in an encoded text stood in the text and is not encoded, or belongs to an
escape. -/
theorem mem_encode {set : EncodeSet} {cs : List Char} {c : Char} (h : c ∈ encode set cs) :
    (c ∈ cs ∧ set c = false) ∨ c ∈ escapes := by
  obtain ⟨d, hd, hc⟩ := List.mem_flatMap.mp h
  unfold encodeChar at hc
  split at hc
  · exact .inr (mem_flatMap_encodeByte hc)
  · rename_i hset
    cases List.mem_singleton.mp hc
    exact .inl ⟨hd, Bool.eq_false_iff.mpr hset⟩

theorem encode_append (set : EncodeSet) (cs ds : List Char) :
    encode set (cs ++ ds) = encode set cs ++ encode set ds := List.flatMap_append

/-- Where nothing is to be encoded, a text stands as it is. -/
theorem encode_eq_self {set : EncodeSet} : ∀ {cs : List Char}, (∀ c ∈ cs, set c = false) →
    encode set cs = cs
  | [], _ => rfl
  | c :: cs, h => by
    have ih : encode set cs = cs := encode_eq_self fun d hd => h d (List.mem_cons_of_mem c hd)
    have hc : encodeChar set c = [c] := by simp [encodeChar, h c List.mem_cons_self]
    calc encode set (c :: cs) = encodeChar set c ++ encode set cs := rfl
      _ = c :: cs := by rw [hc, ih, List.singleton_append]

/-! ### Forms -/

theorem toNat_lt_of_isFormSafe {c : Char} (h : isFormSafe c = true) : c.toNat < 128 := by
  simp only [isFormSafe, Bool.or_eq_true, Bool.and_eq_true, decide_eq_true_eq] at h
  rcases h with (((((⟨-, h⟩ | ⟨-, h⟩) | ⟨-, h⟩) | h) | h) | h) | h
  · exact ascii_of_le h (by decide)
  · exact ascii_of_le h (by decide)
  · exact ascii_of_le h (by decide)
  all_goals
    subst h
    decide

theorem mem_formChar {c d : Char} (h : d ∈ formChar c) :
    isFormSafe d = true ∨ d = '+' ∨ d ∈ escapes := by
  unfold formChar at h
  split at h
  · exact .inr (.inl (List.mem_singleton.mp h))
  · split at h
    · rename_i hsafe
      cases List.mem_singleton.mp h
      exact .inl hsafe
    · exact .inr (.inr (mem_flatMap_encodeByte h))

theorem mem_formEncode {cs : List Char} {d : Char} (h : d ∈ formEncode cs) :
    isFormSafe d = true ∨ d = '+' ∨ d ∈ escapes := by
  obtain ⟨c, -, hd⟩ := List.mem_flatMap.mp h
  exact mem_formChar hd

/-- A character that forms escape, and that is not of the alphabet of escapes. -/
theorem not_mem_formEncode {d : Char} (hsafe : isFormSafe d = false) (hplus : d ≠ '+')
    (hescape : d ∉ escapes) (cs : List Char) : d ∉ formEncode cs := by
  intro h
  rcases mem_formEncode h with h | h | h
  · rw [hsafe] at h
    cases h
  · exact hplus h
  · exact hescape h

/-- In a pair there is the equals sign besides. -/
theorem not_mem_formPair {d : Char} (hsafe : isFormSafe d = false) (hplus : d ≠ '+')
    (hescape : d ∉ escapes) (hequals : d ≠ '=') (name value : String) :
    d ∉ formPair name value :=
  List.not_mem_append (not_mem_formEncode hsafe hplus hescape _)
    (List.not_mem_cons_of_ne_of_not_mem hequals (not_mem_formEncode hsafe hplus hescape _))

theorem formEncode_cons (c : Char) (cs : List Char) :
    formEncode (c :: cs) = formChar c ++ formEncode cs := rfl

theorem formEncode_append (cs ds : List Char) :
    formEncode (cs ++ ds) = formEncode cs ++ formEncode ds := List.flatMap_append

/-- Safe characters stand for themselves. -/
theorem formEncode_eq_self : ∀ {cs : List Char}, (∀ c ∈ cs, isFormSafe c = true) →
    formEncode cs = cs
  | [], _ => rfl
  | c :: cs, h => by
    have hc : isFormSafe c = true := h c List.mem_cons_self
    have hspace : c ≠ ' ' := by
      rintro rfl
      cases hc
    rw [formEncode_cons, formEncode_eq_self fun d hd => h d (List.mem_cons_of_mem c hd), formChar,
      if_neg hspace, if_pos hc]
    rfl

/-- A character that is neither safe nor a space begins with a percent sign. -/
theorem formChar_of_unsafe {c : Char} (hspace : c ≠ ' ') (hsafe : isFormSafe c = false) :
    ∃ x y rest, formChar c = '%' :: x :: y :: rest := by
  rw [formChar, if_neg hspace, if_neg (by rw [hsafe]; exact Bool.false_ne_true)]
  cases hbytes : String.utf8EncodeChar c with
  | nil => exact absurd hbytes String.utf8EncodeChar_ne_nil
  | cons b bytes => exact ⟨_, _, _, rfl⟩

theorem formChar_ne_nil (c : Char) : formChar c ≠ [] := by
  by_cases hspace : c = ' '
  · rw [hspace]
    decide
  · cases hsafe : isFormSafe c with
    | true =>
      rw [formChar, if_neg hspace, if_pos hsafe]
      exact List.cons_ne_nil c []
    | false =>
      obtain ⟨x, y, rest, h⟩ := formChar_of_unsafe hspace hsafe
      rw [h]
      exact List.cons_ne_nil _ _

/-- A form never shortens a text. -/
theorem length_le_formEncode : ∀ cs : List Char, cs.length ≤ (formEncode cs).length
  | [] => Nat.le_refl 0
  | c :: cs => by
    have ih := length_le_formEncode cs
    have hc : 0 < (formChar c).length := List.length_pos_iff.mpr (formChar_ne_nil c)
    rw [formEncode_cons, List.length_append, List.length_cons]
    omega

/-! ### Escapes are read back -/

/-- A byte that is no percent sign stands for itself. -/
theorem decodeBytes_cons {b : UInt8} (hb : b ≠ 37) (rest : Utf8.Bytes) :
    decodeBytes (b :: rest) = b :: decodeBytes rest := by
  match rest with
  | [] => rfl
  | [c] => rfl
  | c :: d :: rest => rw [decodeBytes, if_neg hb]

theorem ofNat_ne_percent {c : Char} (hlt : c.toNat < 128) (hc : c ≠ '%') :
    UInt8.ofNat c.toNat ≠ 37 := by
  intro heq
  have hnat : (UInt8.ofNat c.toNat).toNat = c.toNat := Utf8.toNat_ofNat_of_le (by omega)
  rw [heq] at hnat
  exact hc (Char.toNat_inj.mp hnat.symm)

theorem hexValue?_hexDigit : ∀ n < 16,
    hexValue? (UInt8.ofNat (hexDigit n).toNat) = some n ∧ (hexDigit n).toNat < 128 := by
  decide

/-- An escape gives its byte back. -/
theorem decodeBytes_encodeByte (b : UInt8) (rest : Utf8.Bytes) :
    decodeBytes ((encodeByte b).flatMap String.utf8EncodeChar ++ rest) =
      b :: decodeBytes rest := by
  have hb : b.toNat < 256 := b.toNat_lt
  obtain ⟨hhigh, hhigh'⟩ := hexValue?_hexDigit (b.toNat / 16) (by omega)
  obtain ⟨hlow, hlow'⟩ := hexValue?_hexDigit (b.toNat % 16) (by omega)
  have hbytes : (encodeByte b).flatMap String.utf8EncodeChar =
      [37, UInt8.ofNat (hexDigit (b.toNat / 16)).toNat,
        UInt8.ofNat (hexDigit (b.toNat % 16)).toNat] := by
    simp only [encodeByte, List.flatMap_cons, List.flatMap_nil, Utf8.utf8EncodeChar_of_lt hhigh',
      Utf8.utf8EncodeChar_of_lt hlow']
    rfl
  have hvalue : b.toNat / 16 * 16 + b.toNat % 16 = b.toNat := by omega
  rw [hbytes, List.cons_append, List.cons_append, List.cons_append, List.nil_append, decodeBytes,
    if_pos rfl, hhigh, hlow]
  dsimp only
  rw [hvalue, UInt8.ofNat_toNat]

theorem decodeBytes_encodeBytes (rest : Utf8.Bytes) : ∀ bytes : Utf8.Bytes,
    decodeBytes ((bytes.flatMap encodeByte).flatMap String.utf8EncodeChar ++ rest) =
      bytes ++ decodeBytes rest
  | [] => rfl
  | b :: bytes => by
    rw [List.flatMap_cons, List.flatMap_append, List.append_assoc, decodeBytes_encodeByte,
      decodeBytes_encodeBytes rest bytes, List.cons_append]

/-! ### Forms are read back -/

/-- What reading a form does first. -/
def plusToSpace (c : Char) : Char := if c = '+' then ' ' else c

theorem map_plusToSpace {cs : List Char} (h : '+' ∉ cs) : cs.map plusToSpace = cs := by
  have hsame : ∀ c ∈ cs, plusToSpace c = c := by
    intro c hc
    refine if_neg ?_
    rintro rfl
    exact h hc
  rw [List.map_congr_left hsame, List.map_id']

/-- What a form writes for a character gives the bytes of the character back. -/
theorem decodeBytes_formChar (c : Char) (rest : Utf8.Bytes) :
    decodeBytes (((formChar c).map plusToSpace).flatMap String.utf8EncodeChar ++ rest) =
      String.utf8EncodeChar c ++ decodeBytes rest := by
  by_cases hspace : c = ' '
  · subst hspace
    exact decodeBytes_cons (by decide) rest
  cases hsafe : isFormSafe c with
  | true =>
    have hlt := toNat_lt_of_isFormSafe hsafe
    have hplus : '+' ∉ [c] := by
      intro hmem
      rw [← List.mem_singleton.mp hmem] at hsafe
      exact absurd hsafe (by decide)
    have hpercent : c ≠ '%' := by
      rintro rfl
      exact absurd hsafe (by decide)
    rw [formChar, if_neg hspace, if_pos hsafe, map_plusToSpace hplus, List.flatMap_singleton,
      Utf8.utf8EncodeChar_of_lt hlt]
    exact decodeBytes_cons (ofNat_ne_percent hlt hpercent) rest
  | false =>
    have hplus : '+' ∉ (String.utf8EncodeChar c).flatMap encodeByte := fun hmem =>
      absurd (mem_flatMap_encodeByte hmem) (by decide)
    rw [formChar, if_neg hspace, if_neg (by rw [hsafe]; exact Bool.false_ne_true),
      map_plusToSpace hplus, decodeBytes_encodeBytes]

theorem decodeBytes_formEncode : ∀ cs : List Char,
    decodeBytes (((formEncode cs).map plusToSpace).flatMap String.utf8EncodeChar) =
      cs.flatMap String.utf8EncodeChar
  | [] => rfl
  | c :: cs => by
    rw [formEncode_cons, List.map_append, List.flatMap_append, decodeBytes_formChar,
      decodeBytes_formEncode cs, List.flatMap_cons]

/-- **A form is read back**, whatever characters the text has. -/
theorem formDecode_formEncode (s : String) : formDecode (formEncode s.toList) = s := by
  have hbytes : decode ((formEncode s.toList).map plusToSpace) = Utf8.encode s :=
    decodeBytes_formEncode s.toList
  show Utf8.decodeLossy (decode ((formEncode s.toList).map plusToSpace)) = s
  rw [hbytes, Utf8.decodeLossy_encode]

end Relay.Url.Percent
