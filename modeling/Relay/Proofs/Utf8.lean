/-
# Texts and their bytes

Where bytes are UTF-8, reading them leniently is reading them strictly. A byte below 0x80
is always a character of its own, because all other characters are made of higher bytes.
The bytes of a character are read as one step, one lemma for each number of bytes, so the
bytes of a text read as the text. And the order of texts by code point is the order of their
bytes: of two characters the greater has the greater bytes, first of all in their number,
which the first byte tells.

Key theorems: `decodeLossy_of_decode`, `mem_of_decode`, `step_utf8EncodeChar`, `decode_encode`,
`encode_lt_encode_iff`.
-/
import Relay.Proofs.Except
import Relay.Text.Utf8

namespace Relay.Text.Utf8

/-! ### Reading strictly and leniently -/

theorem decodeLossyChars_of_decodeFrom (index : Nat) (bytes : Bytes) :
    ∀ {cs : List Char}, decodeFrom index bytes = .ok cs → decodeLossyChars bytes = cs := by
  fun_induction decodeFrom index bytes with
  | case1 index =>
    intro cs h
    rw [decodeLossyChars]
    exact Except.ok.inj h
  | case2 index first rest c size hstep ih =>
    intro cs h
    obtain ⟨tail, htail, hcs⟩ := except_bind_eq_ok_iff.mp h
    have hlossy := ih htail
    rw [decodeLossyChars, hstep]
    dsimp only
    rw [hlossy]
    exact Except.ok.inj hcs
  | case3 | case4 =>
    intro cs h
    cases h

theorem decode_eq_ok_iff {bytes : Bytes} {s : String} :
    decode bytes = .ok s ↔ decodeFrom 0 bytes = .ok s.toList := by
  unfold decode
  cases decodeFrom 0 bytes with
  | error fault => exact ⟨fun h => (nomatch h), fun h => (nomatch h)⟩
  | ok cs =>
    have hmap : (Except.ok cs : Except Fault (List Char)).map String.ofList =
        .ok (String.ofList cs) := rfl
    rw [hmap]
    constructor
    · intro h
      rw [← Except.ok.inj h, String.toList_ofList]
    · intro h
      rw [Except.ok.inj h, String.ofList_toList]

/-- Where strict reading succeeds there is nothing to replace. -/
theorem decodeLossy_of_decode {bytes : Bytes} {s : String} (h : decode bytes = .ok s) :
    decodeLossy bytes = s := by
  rw [decodeLossy, decodeLossyChars_of_decodeFrom 0 bytes (decode_eq_ok_iff.mp h),
    String.ofList_toList]

/-! ### Kinds of bytes -/

theorem isContinuation_iff {b : UInt8} :
    isContinuation b = true ↔ 0x80 ≤ b.toNat ∧ b.toNat ≤ 0xBF := by
  simp [isContinuation, UInt8.le_iff_toNat_le]

theorem isSecond_iff {first b : UInt8} :
    isSecond first b = true ↔ 0x80 ≤ b.toNat ∧ b.toNat ≤ 0xBF ∧
      (first.toNat = 0xE0 → 0xA0 ≤ b.toNat) ∧ (first.toNat = 0xED → b.toNat ≤ 0x9F) ∧
      (first.toNat = 0xF0 → 0x90 ≤ b.toNat) ∧ (first.toNat = 0xF4 → b.toNat ≤ 0x8F) := by
  have hcontinuation := isContinuation_iff (b := b)
  unfold isSecond
  simp only [← UInt8.toNat_inj]
  repeat' split
  all_goals simp_all [UInt8.le_iff_toNat_le]
  all_goals omega

theorem width_eq (b : UInt8) :
    width b = if b.toNat < 0x80 then 1
      else if 0xC2 ≤ b.toNat ∧ b.toNat ≤ 0xDF then 2
      else if 0xE0 ≤ b.toNat ∧ b.toNat ≤ 0xEF then 3
      else if 0xF0 ≤ b.toNat ∧ b.toNat ≤ 0xF4 then 4
      else 0 := by
  simp [width, UInt8.le_iff_toNat_le, UInt8.lt_iff_toNat_lt]

/-! ### Characters of one byte -/

theorem not_isContinuation {b : UInt8} (hb : b < 0x80) : isContinuation b = false := by
  have hb' : b.toNat < 0x80 := UInt8.lt_iff_toNat_lt.mp hb
  rw [Bool.eq_false_iff, ne_eq, isContinuation_iff]
  omega

theorem not_isSecond {first b : UInt8} (hb : b < 0x80) : isSecond first b = false := by
  have hb' : b.toNat < 0x80 := UInt8.lt_iff_toNat_lt.mp hb
  rw [Bool.eq_false_iff, ne_eq, isSecond_iff]
  omega

/-- No byte below 0x80 stands behind the first byte of a character. -/
theorem not_mem_of_step {first b : UInt8} {rest : Bytes} {c : Char} {size : Nat}
    (h : step first rest = .char c size) (hb : b < 0x80) : b ∉ rest.take (size - 1) := by
  have second {x : UInt8} (hx : isSecond first x = true) : b ≠ x := by
    rintro rfl
    rw [not_isSecond hb] at hx
    cases hx
  have continuation {x : UInt8} (hx : isContinuation x = true) : b ≠ x := by
    rintro rfl
    rw [not_isContinuation hb] at hx
    cases hx
  unfold step at h
  repeat' split at h
  all_goals cases h
  all_goals simp_all

/-- A byte below 0x80 that starts a character is that character. -/
theorem eq_of_step {first : UInt8} {rest : Bytes} {c : Char} {size : Nat}
    (h : step first rest = .char c size) (hfirst : first < 0x80) :
    c = Char.ofNat first.toNat := by
  have hwidth : width first = 1 := by
    unfold width
    rw [if_pos hfirst]
  unfold step at h
  rw [hwidth] at h
  cases h
  rfl

theorem mem_of_decodeFrom {b : UInt8} (hb : b < 0x80) (index : Nat) (bytes : Bytes) :
    ∀ {cs : List Char}, decodeFrom index bytes = .ok cs → b ∈ bytes →
      Char.ofNat b.toNat ∈ cs := by
  fun_induction decodeFrom index bytes with
  | case1 index =>
    intro cs _ hmem
    cases hmem
  | case2 index first rest c size hstep ih =>
    intro cs h hmem
    obtain ⟨tail, htail, hcs⟩ := except_bind_eq_ok_iff.mp h
    rw [← Except.ok.inj hcs]
    rcases List.mem_cons.mp hmem with rfl | hrest
    · rw [eq_of_step hstep hb]
      exact List.mem_cons_self
    · have hsplit := List.take_append_drop (size - 1) rest
      rw [← hsplit] at hrest
      have hdrop := (List.mem_append.mp hrest).resolve_left (not_mem_of_step hstep hb)
      exact List.mem_cons_of_mem c (ih htail hdrop)
  | case3 | case4 =>
    intro cs h
    cases h

/-- **A byte below 0x80 is a character of the text.** -/
theorem mem_of_decode {b : UInt8} (hb : b < 0x80) {bytes : Bytes} {s : String}
    (h : decode bytes = .ok s) (hmem : b ∈ bytes) : Char.ofNat b.toNat ∈ s.toList :=
  mem_of_decodeFrom hb 0 bytes (decode_eq_ok_iff.mp h) hmem

theorem utf8EncodeChar_of_lt {c : Char} (h : c.toNat < 0x80) :
    String.utf8EncodeChar c = [UInt8.ofNat c.toNat] := by
  unfold String.utf8EncodeChar
  rw [Char.toNat_val, if_pos (by omega)]

/-! ### Writing and reading back -/

theorem toNat_ofNat_of_le {n : Nat} (h : n ≤ 0xFF) : (UInt8.ofNat n).toNat = n :=
  UInt8.toNat_ofNat_of_lt (Nat.lt_succ_of_le h)

/-- A byte behind the first holds six bits. -/
theorem toNat_six (n : Nat) : (UInt8.ofNat (n % 64 + 128)).toNat = n % 64 + 128 :=
  toNat_ofNat_of_le (by omega)

theorem isContinuation_six (n : Nat) : isContinuation (UInt8.ofNat (n % 64 + 128)) = true := by
  rw [isContinuation_iff, toNat_six]
  omega

theorem low6_six (n : Nat) : low6 (UInt8.ofNat (n % 64 + 128)) = n % 64 := by
  rw [low6, toNat_six]
  omega

theorem step_one {n : Nat} (h : n ≤ 0x7F) (tail : Bytes) :
    step (UInt8.ofNat n) tail = .char (Char.ofNat n) 1 := by
  have hfirst : (UInt8.ofNat n).toNat = n := toNat_ofNat_of_le (by omega)
  have hwidth : width (UInt8.ofNat n) = 1 := by rw [width_eq, hfirst, if_pos (by omega)]
  simp only [step, hwidth, hfirst]

theorem step_two {n : Nat} (h : 0x80 ≤ n) (h' : n ≤ 0x7FF) (tail : Bytes) :
    step (UInt8.ofNat (n / 64 % 32 + 192)) (UInt8.ofNat (n % 64 + 128) :: tail) =
      .char (Char.ofNat n) 2 := by
  have hfirst : (UInt8.ofNat (n / 64 % 32 + 192)).toNat = n / 64 + 192 := by
    rw [toNat_ofNat_of_le (by omega)]
    omega
  have hwidth : width (UInt8.ofNat (n / 64 % 32 + 192)) = 2 := by
    rw [width_eq, hfirst, if_neg (by omega), if_pos (by omega)]
  have hsecond : isSecond (UInt8.ofNat (n / 64 % 32 + 192)) (UInt8.ofNat (n % 64 + 128)) = true := by
    rw [isSecond_iff, hfirst, toNat_six]
    omega
  have hvalue : (n / 64 + 192) % 32 * 64 + n % 64 = n := by omega
  simp only [step, hwidth, hsecond, if_true, hfirst, low6_six, hvalue]

theorem step_three {n : Nat} (h : 0x800 ≤ n) (h' : n ≤ 0xFFFF)
    (hvalid : n < 0xD800 ∨ 0xDFFF < n) (tail : Bytes) :
    step (UInt8.ofNat (n / 4096 % 16 + 224))
        (UInt8.ofNat (n / 64 % 64 + 128) :: UInt8.ofNat (n % 64 + 128) :: tail) =
      .char (Char.ofNat n) 3 := by
  have hfirst : (UInt8.ofNat (n / 4096 % 16 + 224)).toNat = n / 4096 + 224 := by
    rw [toNat_ofNat_of_le (by omega)]
    omega
  have hwidth : width (UInt8.ofNat (n / 4096 % 16 + 224)) = 3 := by
    rw [width_eq, hfirst, if_neg (by omega), if_neg (by omega), if_pos (by omega)]
  have hsecond : isSecond (UInt8.ofNat (n / 4096 % 16 + 224))
      (UInt8.ofNat (n / 64 % 64 + 128)) = true := by
    rw [isSecond_iff, hfirst, toNat_six]
    omega
  have hvalue : (n / 4096 + 224) % 16 * 4096 + n / 64 % 64 * 64 + n % 64 = n := by omega
  simp only [step, hwidth, hsecond, isContinuation_six, if_true, hfirst, low6_six, hvalue]

theorem step_four {n : Nat} (h : 0x10000 ≤ n) (h' : n < 0x110000) (tail : Bytes) :
    step (UInt8.ofNat (n / 262144 % 8 + 240))
        (UInt8.ofNat (n / 4096 % 64 + 128) :: UInt8.ofNat (n / 64 % 64 + 128) ::
          UInt8.ofNat (n % 64 + 128) :: tail) =
      .char (Char.ofNat n) 4 := by
  have hfirst : (UInt8.ofNat (n / 262144 % 8 + 240)).toNat = n / 262144 + 240 := by
    rw [toNat_ofNat_of_le (by omega)]
    omega
  have hwidth : width (UInt8.ofNat (n / 262144 % 8 + 240)) = 4 := by
    rw [width_eq, hfirst, if_neg (by omega), if_neg (by omega), if_neg (by omega),
      if_pos (by omega)]
  have hsecond : isSecond (UInt8.ofNat (n / 262144 % 8 + 240))
      (UInt8.ofNat (n / 4096 % 64 + 128)) = true := by
    rw [isSecond_iff, hfirst, toNat_six]
    omega
  have hvalue : (n / 262144 + 240) % 8 * 262144 + n / 4096 % 64 * 4096 + n / 64 % 64 * 64 +
      n % 64 = n := by omega
  simp only [step, hwidth, hsecond, isContinuation_six, if_true, hfirst, low6_six, hvalue]

/-- **The bytes of a character are one step**, whatever follows them. -/
theorem step_utf8EncodeChar (c : Char) :
    ∃ first rest, String.utf8EncodeChar c = first :: rest ∧
      ∀ tail, step first (rest ++ tail) = .char c (rest.length + 1) := by
  have hvalid : c.toNat < 0xD800 ∨ 0xDFFF < c.toNat ∧ c.toNat < 0x110000 := c.valid
  have hchar : Char.ofNat c.toNat = c := Char.ofNat_toNat c
  unfold String.utf8EncodeChar
  rw [Char.toNat_val]
  dsimp only
  split
  · refine ⟨_, _, rfl, fun tail => ?_⟩
    have h := step_one (n := c.toNat) (by omega) tail
    rwa [hchar] at h
  · split
    · refine ⟨_, _, rfl, fun tail => ?_⟩
      have h := step_two (n := c.toNat) (by omega) (by omega) tail
      rwa [hchar] at h
    · split
      · refine ⟨_, _, rfl, fun tail => ?_⟩
        have h := step_three (n := c.toNat) (by omega) (by omega) (by omega) tail
        rwa [hchar] at h
      · refine ⟨_, _, rfl, fun tail => ?_⟩
        have h := step_four (n := c.toNat) (by omega) (by omega) tail
        rwa [hchar] at h

theorem decodeFrom_encodeChars : ∀ (cs : List Char) (index : Nat),
    decodeFrom index (cs.flatMap String.utf8EncodeChar) = .ok cs
  | [], index => by rw [List.flatMap_nil, decodeFrom]
  | c :: cs, index => by
    obtain ⟨first, rest, hbytes, hstep⟩ := step_utf8EncodeChar c
    rw [List.flatMap_cons, hbytes, List.cons_append, decodeFrom, hstep]
    dsimp only
    rw [Nat.add_sub_cancel, List.drop_left, decodeFrom_encodeChars cs]
    rfl

/-- **The bytes of a text read as the text.** -/
theorem decode_encode (s : String) : decode (encode s) = .ok s := by
  rw [decode_eq_ok_iff, encode, decodeFrom_encodeChars]

theorem decodeLossy_encode (s : String) : decodeLossy (encode s) = s :=
  decodeLossy_of_decode (decode_encode s)

/-! ### The order of texts -/

theorem utf8EncodeChar_ne_nil (c : Char) : String.utf8EncodeChar c ≠ [] := by
  unfold String.utf8EncodeChar
  dsimp only
  repeat' split
  all_goals exact List.cons_ne_nil _ _

/-- Of two characters, the greater has the greater bytes, whatever follows them. -/
theorem utf8EncodeChar_append_lt {c d : Char} (h : c < d) (xs ys : Bytes) :
    String.utf8EncodeChar c ++ xs < String.utf8EncodeChar d ++ ys := by
  have hlt : c.val.toNat < d.val.toNat := UInt32.lt_iff_toNat_lt.mp (Char.lt_def.mp h)
  have hd : d.val.toNat < 0x110000 := by
    rcases d.valid with hd | hd
    · omega
    · exact hd.2
  -- the digits of base 64, each taken from the one before
  have div64 (k : Nat) : k / 4096 = k / 64 / 64 := by omega
  have div64' (k : Nat) : k / 262144 = k / 64 / 64 / 64 := by omega
  unfold String.utf8EncodeChar
  generalize c.val.toNat = m at hlt
  generalize d.val.toNat = n at hlt hd
  dsimp only
  repeat' split
  all_goals simp only [List.cons_append, List.nil_append, List.cons_lt_cons_iff,
    UInt8.lt_iff_toNat_lt, ← UInt8.toNat_inj, UInt8.toNat_ofNat', div64, div64']
  all_goals omega

theorem encodeChars_lt : ∀ {cs ds : List Char}, cs < ds →
    cs.flatMap String.utf8EncodeChar < ds.flatMap String.utf8EncodeChar
  | [], [], h => absurd h (List.lt_irrefl _)
  | [], d :: ds, _ => by
    rw [List.flatMap_nil, List.flatMap_cons]
    obtain ⟨b, bs, hb⟩ := List.exists_cons_of_ne_nil (utf8EncodeChar_ne_nil d)
    rw [hb, List.cons_append]
    exact List.nil_lt_cons b _
  | c :: cs, [], h => absurd h (List.not_lt_nil _)
  | c :: cs, d :: ds, h => by
    rw [List.flatMap_cons, List.flatMap_cons]
    rcases List.cons_lt_cons_iff.mp h with hlt | ⟨rfl, htail⟩
    · exact utf8EncodeChar_append_lt hlt _ _
    · exact List.append_left_lt (encodeChars_lt htail)

/-- **Texts are ordered as their bytes are.** -/
theorem encode_lt_encode_iff {s t : String} : encode s < encode t ↔ s < t := by
  have mono {s t : String} (h : s < t) : encode s < encode t :=
    encodeChars_lt (String.lt_iff.mp h)
  refine ⟨fun h => ?_, mono⟩
  by_cases hst : s < t
  · exact hst
  by_cases hts : t < s
  · exact absurd (List.lt_trans h (mono hts)) (List.lt_irrefl _)
  · have heq : s = t := String.le_antisymm (String.not_lt.mp hts) (String.not_lt.mp hst)
    rw [heq] at h
    exact absurd h (List.lt_irrefl _)

end Relay.Text.Utf8
