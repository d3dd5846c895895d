/-
# The digits of a double

The search for the shortest decimal starts at an estimate of the power of ten that the first
digit counts, three below it at the least, and ends seventeen digits further on. The estimate is
taken from the lengths in bits, and a double is so far from the ends of its range that the last
power of ten tried is below the double: so the digits that are found are never zero. Hence what
is written of a finite double is a numeral, in either layout.

Key theorems: `leadingExponent_le`, `digits_ne_zero`, `exists_numeral_render`.
-/
import Relay.Proofs.Numeral

namespace Relay.Decimal.Shortest

/-! ### Powers of ten and of two -/

theorem ten_pow_le (k : Nat) : Nat.pow 10 k ≤ Nat.pow 2 (10 * ((k + 2) / 3)) :=
  calc Nat.pow 10 k
      ≤ Nat.pow 10 (3 * ((k + 2) / 3)) := Nat.pow_le_pow_right (by decide) (by omega)
    _ = Nat.pow (Nat.pow 10 3) ((k + 2) / 3) := Nat.pow_mul 10 3 _
    _ ≤ Nat.pow (Nat.pow 2 10) ((k + 2) / 3) := Nat.pow_le_pow_left (by decide) _
    _ = Nat.pow 2 (10 * ((k + 2) / 3)) := (Nat.pow_mul 2 10 _).symm

theorem two_pow_le (k : Nat) : Nat.pow 2 (13 * (k / 4)) ≤ Nat.pow 10 k :=
  calc Nat.pow 2 (13 * (k / 4))
      = Nat.pow (Nat.pow 2 13) (k / 4) := Nat.pow_mul 2 13 _
    _ ≤ Nat.pow (Nat.pow 10 4) (k / 4) := Nat.pow_le_pow_left (by decide) _
    _ = Nat.pow 10 (4 * (k / 4)) := (Nat.pow_mul 10 4 _).symm
    _ ≤ Nat.pow 10 k := Nat.pow_le_pow_right (by decide) (by omega)

/-! ### Powers of ten below a ratio -/

variable {x : Ratio} {e e' : Int}

theorem scaled_le_iff_of_nonneg (h : 0 ≤ e) :
    (scaled 1 e).le x = true ↔ Nat.pow 10 e.toNat * x.den ≤ x.num := by
  simp [scaled, h, Ratio.le]

theorem scaled_le_iff_of_neg (h : ¬0 ≤ e) :
    (scaled 1 e).le x = true ↔ x.den ≤ x.num * Nat.pow 10 (-e).toNat := by
  simp [scaled, h, Ratio.le]

/-- Lower powers are below what a higher one is below. -/
theorem scaled_le_of_le (h : e' ≤ e) (hx : (scaled 1 e).le x = true) :
    (scaled 1 e').le x = true := by
  by_cases he : 0 ≤ e
  · rw [scaled_le_iff_of_nonneg he] at hx
    by_cases he' : 0 ≤ e'
    · rw [scaled_le_iff_of_nonneg he']
      calc Nat.pow 10 e'.toNat * x.den
          ≤ Nat.pow 10 e.toNat * x.den :=
            Nat.mul_le_mul_right _ (Nat.pow_le_pow_right (by decide) (by omega))
        _ ≤ x.num := hx
    · rw [scaled_le_iff_of_neg he']
      calc x.den
          ≤ Nat.pow 10 e.toNat * x.den := Nat.le_mul_of_pos_left _ (Nat.pow_pos (by decide))
        _ ≤ x.num := hx
        _ ≤ x.num * Nat.pow 10 (-e').toNat := Nat.le_mul_of_pos_right _ (Nat.pow_pos (by decide))
  · have he' : ¬0 ≤ e' := by omega
    rw [scaled_le_iff_of_neg he] at hx
    rw [scaled_le_iff_of_neg he']
    calc x.den
        ≤ x.num * Nat.pow 10 (-e).toNat := hx
      _ ≤ x.num * Nat.pow 10 (-e').toNat :=
          Nat.mul_le_mul_left _ (Nat.pow_le_pow_right (by decide) (by omega))

/-- The length of the numerator in bits less that of the denominator. -/
def bits (x : Ratio) : Int := (Nat.log2 x.num : Int) - Nat.log2 x.den

/-- Nineteen places below the estimate a power of ten is below the ratio, if that is not too far
from one. -/
theorem scaled_le_of_bits (hnum : x.num ≠ 0) (hlow : -1100 ≤ bits x) (hhigh : bits x ≤ 1100)
    (he : e + 19 ≤ (bits x * 30103).fdiv 100000) : (scaled 1 e).le x = true := by
  rw [Int.fdiv_eq_ediv_of_nonneg _ (by decide)] at he
  unfold bits at hlow hhigh he
  have hnumBits : Nat.pow 2 x.num.log2 ≤ x.num := Nat.log2_self_le hnum
  have hdenBits : x.den ≤ Nat.pow 2 (x.den.log2 + 1) := Nat.le_of_lt Nat.lt_log2_self
  by_cases hpos : 0 ≤ e
  · rw [scaled_le_iff_of_nonneg hpos]
    calc Nat.pow 10 e.toNat * x.den
        ≤ Nat.pow 2 (10 * ((e.toNat + 2) / 3)) * Nat.pow 2 (x.den.log2 + 1) :=
          Nat.mul_le_mul (ten_pow_le _) hdenBits
      _ = Nat.pow 2 (10 * ((e.toNat + 2) / 3) + (x.den.log2 + 1)) := (Nat.pow_add 2 _ _).symm
      _ ≤ Nat.pow 2 x.num.log2 := Nat.pow_le_pow_right (by decide) (by omega)
      _ ≤ x.num := hnumBits
  · rw [scaled_le_iff_of_neg hpos]
    calc x.den
        ≤ Nat.pow 2 (x.den.log2 + 1) := hdenBits
      _ ≤ Nat.pow 2 (x.num.log2 + 13 * ((-e).toNat / 4)) :=
          Nat.pow_le_pow_right (by decide) (by omega)
      _ = Nat.pow 2 x.num.log2 * Nat.pow 2 (13 * ((-e).toNat / 4)) := Nat.pow_add 2 _ _
      _ ≤ x.num * Nat.pow 10 (-e).toNat := Nat.mul_le_mul hnumBits (two_pow_le _)

/-- **The last place that is tried is below the ratio.** -/
theorem leadingExponent_le (hnum : x.num ≠ 0) (hlow : -1100 ≤ bits x) (hhigh : bits x ≤ 1100) :
    (scaled 1 (leadingExponent x - 17)).le x = true := by
  unfold leadingExponent
  dsimp only
  split
  · rename_i h
    exact scaled_le_of_le (by omega) h
  · split
    · rename_i h
      exact scaled_le_of_le (by omega) h
    · split
      · rename_i h
        exact scaled_le_of_le (by omega) h
      · refine scaled_le_of_bits hnum hlow hhigh ?_
        unfold bits
        omega

/-! ### Digits -/

variable {i : Interval} {place : Int}

/-- Of the two neighbours on a grid the lower one is chosen only if it is not zero. -/
theorem onGrid_ne_zero {n : Nat} (h : onGrid i x place = some n) : n ≠ 0 := by
  unfold onGrid at h
  dsimp only at h
  generalize x.num * (scaled 1 place).den / (x.den * (scaled 1 place).num) = below at h
  by_cases hlow : below = 0
  · simp only [hlow, ne_eq, not_true_eq_false, decide_false, Bool.false_and, Bool.false_eq_true,
      if_false] at h
    split at h
    · cases h
      decide
    · cases h
  · have hnext : below + 1 ≠ 0 := Nat.succ_ne_zero below
    split at h
    · split at h
      · exact Option.some.inj h ▸ hlow
      · split at h
        · exact Option.some.inj h ▸ hnext
        · split at h
          · exact Option.some.inj h ▸ hlow
          · exact Option.some.inj h ▸ hnext
    · split at h
      · exact Option.some.inj h ▸ hlow
      · split at h
        · exact Option.some.inj h ▸ hnext
        · cases h

theorem scaled_num_pos (e : Int) : 0 < (scaled 1 e).num := by
  unfold scaled
  split
  · exact Nat.mul_pos (by decide) (Nat.pow_pos (by decide))
  · exact Nat.one_pos

theorem search_ne_zero (hden : x.den ≠ 0) : ∀ (k : Nat) (place : Int),
    (scaled 1 (place - k)).le x = true → (search i x k place).1 ≠ 0
  | 0, place, h => by
    have hle : (scaled 1 place).le x = true := by simpa using h
    have hunit : x.den * (scaled 1 place).num ≤ x.num * (scaled 1 place).den := by
      rw [Nat.mul_comm x.den]
      exact of_decide_eq_true hle
    have hpos : 0 < x.den * (scaled 1 place).num :=
      Nat.mul_pos (Nat.pos_of_ne_zero hden) (scaled_num_pos place)
    exact Nat.ne_of_gt (Nat.div_pos hunit hpos)
  | k + 1, place, h => by
    unfold search
    split
    · rename_i n hn
      exact onGrid_ne_zero hn
    · refine search_ne_zero hden k (place - 1) ?_
      have heq : place - 1 - (k : Int) = place - ((k + 1 : Nat) : Int) := by omega
      rw [heq]
      exact h

/-- A double is neither too long nor too short for the estimate. -/
theorem bits_quarters {mantissa power : Nat} (hmantissa : mantissa ≠ 0)
    (hbound : mantissa < Nat.pow 2 53) (hpower : power ≤ 2046) :
    -1100 ≤ bits (quarters (4 * mantissa) power) ∧ bits (quarters (4 * mantissa) power) ≤ 1100 := by
  have hfour : 4 * mantissa < Nat.pow 2 55 := by
    have hpow : Nat.pow 2 53 = 9007199254740992 := by decide
    have hpow' : Nat.pow 2 55 = 36028797018963968 := by decide
    omega
  unfold bits quarters
  by_cases hlarge : 1076 ≤ power
  · have hne : 4 * mantissa * Nat.pow 2 (power - 1076) ≠ 0 :=
      Nat.mul_ne_zero (by omega) (Nat.ne_of_gt (Nat.pow_pos (by decide)))
    have hlog : (4 * mantissa * Nat.pow 2 (power - 1076)).log2 < 55 + (power - 1076) :=
      (Nat.log2_lt hne).mpr <|
        calc 4 * mantissa * Nat.pow 2 (power - 1076)
            < Nat.pow 2 55 * Nat.pow 2 (power - 1076) :=
              Nat.mul_lt_mul_of_pos_right hfour (Nat.pow_pos (by decide))
          _ = Nat.pow 2 (55 + (power - 1076)) := (Nat.pow_add 2 _ _).symm
    have hone : Nat.log2 1 = 0 := by decide
    rw [if_pos hlarge]
    dsimp only
    omega
  · have hnum : (4 * mantissa).log2 < 55 := (Nat.log2_lt (by omega)).mpr hfour
    have hden : (Nat.pow 2 (1076 - power)).log2 = 1076 - power := Nat.log2_two_pow
    rw [if_neg hlarge]
    dsimp only
    omega

/-- **The digits of a double are not zero** unless it is. -/
theorem digits_ne_zero {mantissa power : Nat} (hmantissa : mantissa ≠ 0)
    (hbound : mantissa < Nat.pow 2 53) (hpower : power ≤ 2046) :
    (digits mantissa power).1 ≠ 0 := by
  obtain ⟨hlow, hhigh⟩ := bits_quarters hmantissa hbound hpower
  have hnum : (quarters (4 * mantissa) power).num ≠ 0 := by
    unfold quarters
    split
    · exact Nat.mul_ne_zero (by omega) (Nat.ne_of_gt (Nat.pow_pos (by decide)))
    · exact Nat.mul_ne_zero (by decide) hmantissa
  have hden : (quarters (4 * mantissa) power).den ≠ 0 := by
    unfold quarters
    split
    · exact Nat.one_ne_zero
    · exact Nat.ne_of_gt (Nat.pow_pos (by decide))
  exact search_ne_zero hden 17 _ (leadingExponent_le hnum hlow hhigh)

theorem strip_ne_zero : ∀ (k : Nat) {n : Nat} (place : Int), n ≠ 0 → (strip k n place).1 ≠ 0
  | 0, _, _, h => h
  | k + 1, n, place, h => by
    unfold strip
    split
    · rename_i hzero
      exact strip_ne_zero k _ (by omega)
    · exact h

/-! ### Layouts -/

open Json Json.Read

/-- The text is that of a numeral without a sign. -/
def Unsigned (cs : List Char) : Prop := ∃ n : Numeral, n.Proper ∧ n.negative = false ∧ cs = n.text

variable {ds whole fraction : List Char}

theorem unsigned_of_parts {exponent : Option (Bool × List Char)} {fraction : Option (List Char)}
    (hwhole : Digits whole) (hzero : whole.head? = some '0' → whole.length = 1)
    (hfraction : ∀ ds, fraction = some ds → Digits ds)
    (hexponent : ∀ down ds, exponent = some (down, ds) → Digits ds) :
    Unsigned (whole ++ (fractionText fraction ++ exponentText exponent)) :=
  ⟨⟨false, whole, fraction, exponent⟩, ⟨hwhole, hzero, hfraction, hexponent⟩, rfl, rfl⟩

theorem unsigned_pointed (hwhole : Digits whole)
    (hzero : whole.head? = some '0' → whole.length = 1) (hfraction : Digits fraction) :
    Unsigned (whole ++ '.' :: fraction) := by
  have hparts : Unsigned (whole ++ (fractionText (some fraction) ++ exponentText none)) :=
    unsigned_of_parts hwhole hzero (fun ds h => Option.some.inj h ▸ hfraction) fun _ _ h => nomatch h
  rwa [fractionText, exponentText, List.append_nil] at hparts

theorem digits_append {as bs : List Char} (hne : as ++ bs ≠ []) (has : ∀ c ∈ as, isDigit c = true)
    (hbs : ∀ c ∈ bs, isDigit c = true) : Digits (as ++ bs) :=
  ⟨hne, fun c hc => (List.mem_append.mp hc).elim (has c) (hbs c)⟩

theorem isDigit_of_mem_zeros {k : Nat} : ∀ c ∈ zeros k, isDigit c = true := by
  intro c hc
  rw [List.eq_of_mem_replicate hc]
  decide

theorem digits_singleton {c : Char} (hc : isDigit c = true) : Digits [c] :=
  ⟨List.cons_ne_nil _ _, fun _ h => List.mem_singleton.mp h ▸ hc⟩

theorem digits_zero : Digits ['0'] := digits_singleton (by decide)

/-- A point stands behind the digits, among them or in front of them. -/
theorem unsigned_plain (hds : Digits ds) (hhead : ds.head? ≠ some '0') (place : Int) :
    Unsigned (plain ".0" ds place) := by
  unfold plain
  split
  · have hwhole : Digits (ds ++ zeros place.toNat) :=
      digits_append (List.append_ne_nil_of_left_ne_nil hds.ne_nil _) hds.isDigit isDigit_of_mem_zeros
    refine unsigned_pointed hwhole (fun hzero => ?_) digits_zero
    obtain ⟨c, cs, rfl, -⟩ := hds.exists_cons
    exact absurd hzero hhead
  · rename_i hneg
    dsimp only
    split
    · rename_i hlt
      refine unsigned_pointed ⟨fun hnil => ?_, fun c hc => hds.isDigit c (List.mem_of_mem_take hc)⟩
        (fun hzero => ?_)
        ⟨fun hnil => ?_, fun c hc => hds.isDigit c (List.mem_of_mem_drop hc)⟩
      · have hlength := congrArg List.length hnil
        rw [List.length_take, List.length_nil] at hlength
        omega
      · rw [List.head?_take, if_neg (by omega)] at hzero
        exact absurd hzero hhead
      · have hlength := congrArg List.length hnil
        rw [List.length_drop, List.length_nil] at hlength
        omega
    · have hfraction : Digits (zeros ((-place).toNat - ds.length) ++ ds) :=
        digits_append (List.append_ne_nil_of_right_ne_nil _ hds.ne_nil) isDigit_of_mem_zeros
          hds.isDigit
      exact unsigned_pointed digits_zero (fun _ => rfl) hfraction

theorem unsigned_scientific (hds : Digits ds) (first : Int) :
    Unsigned (scientific "+" ds first) := by
  have htext : ('e' :: if first < 0 then '-' :: (toString first.natAbs).toList
      else "+".toList ++ (toString first.natAbs).toList) =
        exponentText (some (decide (first < 0), Nat.toDigits 10 first.natAbs)) := by
    rw [Nat.toString_eq_repr, Nat.toList_repr, exponentText]
    by_cases h : first < 0
    · simp [h]
    · simp [h]
  have hexponent : ∀ down ds, some (decide (first < 0), Nat.toDigits 10 first.natAbs) =
      some (down, ds) → Digits ds := by
    rintro _ _ ⟨⟩
    exact digits_toDigits _
  unfold scientific
  dsimp only
  rw [htext]
  obtain ⟨c, cs, rfl, hc⟩ := hds.exists_cons
  cases cs with
  | nil =>
    have hparts : Unsigned ([c] ++ (fractionText none ++ exponentText _)) :=
      unsigned_of_parts hds (fun _ => rfl) (by rintro _ ⟨⟩) hexponent
    exact hparts
  | cons d cs =>
    have hothers : Digits (d :: cs) :=
      ⟨List.cons_ne_nil _ _, fun e he => hds.isDigit e (List.mem_cons_of_mem _ he)⟩
    have hparts : Unsigned ([c] ++ (fractionText (some (d :: cs)) ++ exponentText _)) :=
      unsigned_of_parts (digits_singleton hc) (fun _ => rfl)
        (fun _ h => Option.some.inj h ▸ hothers) hexponent
    exact hparts

theorem unsigned_layoutDigits {n : Nat} (hn : n ≠ 0) (place : Int) :
    Unsigned (layoutDigits floatLayout n place) := by
  unfold layoutDigits
  dsimp only
  split
  · exact unsigned_plain (digits_toDigits n) (head?_toDigits hn) place
  · exact unsigned_scientific (digits_toDigits n) _

/-- A finite double has a mantissa of 53 bits and a power in range. -/
theorem bounds_of_parts {y : Binary64} {negative : Bool} {mantissa power : Nat}
    (h : y.parts = .finite negative mantissa power) :
    mantissa < Nat.pow 2 53 ∧ power ≤ 2046 := by
  have hpow : Nat.pow 2 52 = 4503599627370496 := by decide
  have hpow' : Nat.pow 2 53 = 9007199254740992 := by decide
  have hsign : Binary64.signBit = 9223372036854775808 := by decide
  have hrest : y.bits.toNat % Binary64.signBit < Binary64.signBit :=
    Nat.mod_lt _ (by rw [hsign]; decide)
  unfold Binary64.parts at h
  dsimp only at h
  generalize y.bits.toNat % Binary64.signBit = rest at h hrest
  rw [hpow] at h
  rw [hpow']
  rw [hsign] at hrest
  split at h
  · split at h
    · cases h
    · cases h
  · split at h
    · cases h
      omega
    · cases h
      omega

/-- **What is written of a finite double is a numeral.** -/
theorem exists_numeral_render {y : Binary64} {s : String} (h : render floatLayout y = some s) :
    ∃ n : Numeral, n.Proper ∧ s.toList = n.text := by
  unfold render at h
  split at h
  · rename_i negative mantissa power hparts
    obtain ⟨hmantissa, hpower⟩ := bounds_of_parts hparts
    dsimp only at h
    have hbody : Unsigned (if mantissa = 0 then '0' :: floatLayout.whole.toList else
        layoutDigits floatLayout (strip 20 (digits mantissa power).1 (digits mantissa power).2).1
          (strip 20 (digits mantissa power).1 (digits mantissa power).2).2) := by
      split
      · exact unsigned_pointed digits_zero (fun _ => rfl) digits_zero
      · rename_i hzero
        exact unsigned_layoutDigits
          (strip_ne_zero 20 _ (digits_ne_zero hzero hmantissa hpower)) _
    obtain ⟨n, hn, hsign, htext⟩ := hbody
    rw [htext] at h
    cases h
    rw [String.toList_ofList]
    cases negative with
    | false => exact ⟨n, hn, rfl⟩
    | true =>
      refine ⟨{ n with negative := true }, ⟨hn.whole, hn.zero, hn.fraction, hn.exponent⟩, ?_⟩
      simp [Numeral.text, hsign]
  · cases h

end Relay.Decimal.Shortest
