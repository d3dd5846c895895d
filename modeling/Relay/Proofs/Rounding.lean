/-
# Doubles that are finite

A quotient is rounded on the grid whose unit its leading bit calls for, so that what is rounded
has 53 bits, or fewer at the smallest unit. The bits of the result count up through all doubles
in order, and the first pattern behind the largest double is that of infinity. So a quotient is
rounded to a finite double exactly if it is nearer to the largest double than to the power of two
behind it; halfway between, the even one is taken, which is infinity. A decimal is decided before
it is rounded where its digits tell that it is far outside of that range, and the same way.

Key definitions: `Binary64.overflow`, `Binary64.scaledTo`, `Binary64.placeOf`, `Decimal.Below`.
Key theorems: `roundHalfEven_lt_iff`, `placeOf_bounds`, `ratioBits_lt_iff`, `isFinite_ofRatio`,
`natOfDigits_lt`, `le_natOfDigits`, `isFinite_exact`.
-/
import Relay.Proofs.Shortest

namespace Relay

namespace Binary64

variable {num den p k : Nat}

/-! ### Rounding to a whole number -/

theorem div_le_roundHalfEven : num / den ≤ roundHalfEven num den := by
  unfold roundHalfEven
  dsimp only
  split
  · exact Nat.le_refl _
  · split
    · exact Nat.le_succ _
    · split
      · exact Nat.le_refl _
      · exact Nat.le_succ _

theorem roundHalfEven_le : roundHalfEven num den ≤ num / den + 1 := by
  unfold roundHalfEven
  dsimp only
  split
  · exact Nat.le_succ _
  · split
    · exact Nat.le_refl _
    · split
      · exact Nat.le_succ _
      · exact Nat.le_refl _

/-- **An even number is reached from half a unit below it.** -/
theorem roundHalfEven_lt_iff (hden : 0 < den) {q : Nat} (hq : 0 < q) (heven : q % 2 = 0) :
    roundHalfEven num den < q ↔ 2 * num < (2 * q - 1) * den := by
  have hsplit : den * (num / den) + num % den = num := Nat.div_add_mod num den
  have hrest : num % den < den := Nat.mod_lt num hden
  have hlow : num / den ≤ roundHalfEven num den := div_le_roundHalfEven
  have hhigh : roundHalfEven num den ≤ num / den + 1 := roundHalfEven_le
  have hbound : (2 * q - 1) * den + den = 2 * (den * q) := by
    have hone : 2 * q - 1 + 1 = 2 * q := by omega
    rw [← Nat.succ_mul, Nat.succ_eq_add_one, hone, Nat.mul_assoc, Nat.mul_comm q den]
  generalize (2 * q - 1) * den = bound at hbound ⊢
  rcases Nat.lt_trichotomy (num / den + 1) q with hlt | heq | hgt
  · -- the next whole number is still below
    have hprod : den * (num / den + 2) ≤ den * q := Nat.mul_le_mul_left den hlt
    rw [Nat.mul_add] at hprod
    constructor
    · intro _
      omega
    · intro _
      omega
  · have hprod : den * q = den * (num / den) + den := by rw [← heq, Nat.mul_succ]
    unfold roundHalfEven
    dsimp only
    by_cases hless : 2 * (num % den) < den
    · rw [if_pos hless]
      omega
    · rw [if_neg hless]
      by_cases hmore : den < 2 * (num % den)
      · rw [if_pos hmore]
        omega
      · -- halfway, the lower neighbour is odd
        rw [if_neg hmore, if_neg (by omega)]
        omega
  · have hprod : den * q ≤ den * (num / den) := Nat.mul_le_mul_left den (by omega)
    constructor
    · intro h
      omega
    · intro h
      omega

/-! ### Powers of two -/

theorem two_pow_of_add {a b c : Nat} (h : a + b = c) :
    Nat.pow 2 c = Nat.pow 2 a * Nat.pow 2 b := by
  subst h
  exact Nat.pow_add 2 a b

theorem two_pow_of_succ {a c : Nat} (h : a + 1 = c) : Nat.pow 2 c = Nat.pow 2 a * 2 := by
  subst h
  rfl

theorem two_pow_le {a b : Nat} (h : a ≤ b) : Nat.pow 2 a ≤ Nat.pow 2 b :=
  Nat.pow_le_pow_right (by decide) h

/-! ### The grid of a quotient -/

/-- The quotient in units of `2 ^ (p - 1074)`. -/
def scaledTo (num den p : Nat) : Nat × Nat :=
  if 1074 ≤ p then (num, den * Nat.pow 2 (p - 1074)) else (num * Nat.pow 2 (1074 - p), den)

/-- The unit that a quotient is rounded to. -/
def placeOf (num den : Nat) : Nat :=
  let guess := 1126 + Nat.log2 num - Nat.log2 den - 104
  if guess = 0 then 0
  else if (scaledTo num den guess).1 / (scaledTo num den guess).2 < Nat.pow 2 52 then guess - 1
  else guess

theorem ratioBits_eq (hnum : num ≠ 0) :
    ratioBits num den = min (placeOf num den * Nat.pow 2 52 +
      roundHalfEven (scaledTo num den (placeOf num den)).1
        (scaledTo num den (placeOf num den)).2) infinityBits := by
  unfold ratioBits
  rw [if_neg hnum]
  rfl

theorem scaledTo_of_le (h : 1074 ≤ p) :
    scaledTo num den p = (num, den * Nat.pow 2 (p - 1074)) := if_pos h

theorem scaledTo_of_lt (h : ¬1074 ≤ p) :
    scaledTo num den p = (num * Nat.pow 2 (1074 - p), den) := if_neg h

theorem scaledTo_pos (hden : 0 < den) : 0 < (scaledTo num den p).2 := by
  unfold scaledTo
  split
  · exact Nat.mul_pos hden (Nat.pow_pos (by decide))
  · exact hden

/-- From the lengths in bits: what is at most so large in these units. -/
theorem scaledTo_lt (hden : den ≠ 0) (h : num.log2 + 1075 ≤ k + den.log2 + p) :
    (scaledTo num den p).1 < Nat.pow 2 k * (scaledTo num den p).2 := by
  have hnumBits : num < Nat.pow 2 (num.log2 + 1) := Nat.lt_log2_self
  have hdenBits : Nat.pow 2 den.log2 ≤ den := Nat.log2_self_le hden
  by_cases hp : 1074 ≤ p
  · rw [scaledTo_of_le hp]
    calc num
        < Nat.pow 2 (num.log2 + 1) := hnumBits
      _ ≤ Nat.pow 2 (k + (den.log2 + (p - 1074))) := two_pow_le (by omega)
      _ = Nat.pow 2 k * (Nat.pow 2 den.log2 * Nat.pow 2 (p - 1074)) := by
          rw [two_pow_of_add rfl, two_pow_of_add rfl]
      _ ≤ Nat.pow 2 k * (den * Nat.pow 2 (p - 1074)) :=
          Nat.mul_le_mul_left _ (Nat.mul_le_mul_right _ hdenBits)
  · rw [scaledTo_of_lt hp]
    calc num * Nat.pow 2 (1074 - p)
        < Nat.pow 2 (num.log2 + 1) * Nat.pow 2 (1074 - p) :=
          Nat.mul_lt_mul_of_pos_right hnumBits (Nat.pow_pos (by decide))
      _ = Nat.pow 2 (num.log2 + 1 + (1074 - p)) := (two_pow_of_add rfl).symm
      _ ≤ Nat.pow 2 (k + den.log2) := two_pow_le (by omega)
      _ = Nat.pow 2 k * Nat.pow 2 den.log2 := two_pow_of_add rfl
      _ ≤ Nat.pow 2 k * den := Nat.mul_le_mul_left _ hdenBits

/-- From the lengths in bits: what is at least so large in these units. -/
theorem le_scaledTo (hnum : num ≠ 0) (h : k + den.log2 + 1 + p ≤ num.log2 + 1074) :
    Nat.pow 2 k * (scaledTo num den p).2 ≤ (scaledTo num den p).1 := by
  have hnumBits : Nat.pow 2 num.log2 ≤ num := Nat.log2_self_le hnum
  have hdenBits : den ≤ Nat.pow 2 (den.log2 + 1) := Nat.le_of_lt Nat.lt_log2_self
  by_cases hp : 1074 ≤ p
  · rw [scaledTo_of_le hp]
    calc Nat.pow 2 k * (den * Nat.pow 2 (p - 1074))
        ≤ Nat.pow 2 k * (Nat.pow 2 (den.log2 + 1) * Nat.pow 2 (p - 1074)) :=
          Nat.mul_le_mul_left _ (Nat.mul_le_mul_right _ hdenBits)
      _ = Nat.pow 2 (k + (den.log2 + 1 + (p - 1074))) := by
          rw [two_pow_of_add (b := den.log2 + 1 + (p - 1074)) rfl,
            two_pow_of_add (a := den.log2 + 1) rfl]
      _ ≤ Nat.pow 2 num.log2 := two_pow_le (by omega)
      _ ≤ num := hnumBits
  · rw [scaledTo_of_lt hp]
    calc Nat.pow 2 k * den
        ≤ Nat.pow 2 k * Nat.pow 2 (den.log2 + 1) := Nat.mul_le_mul_left _ hdenBits
      _ = Nat.pow 2 (k + (den.log2 + 1)) := (two_pow_of_add rfl).symm
      _ ≤ Nat.pow 2 (num.log2 + (1074 - p)) := two_pow_le (by omega)
      _ = Nat.pow 2 num.log2 * Nat.pow 2 (1074 - p) := two_pow_of_add rfl
      _ ≤ num * Nat.pow 2 (1074 - p) := Nat.mul_le_mul_right _ hnumBits

/-- In units of half the size it is at most twice as much. -/
theorem scaledTo_lt_of_succ
    (h : (scaledTo num den (p + 1)).1 < Nat.pow 2 k * (scaledTo num den (p + 1)).2) :
    (scaledTo num den p).1 < Nat.pow 2 (k + 1) * (scaledTo num den p).2 := by
  rw [two_pow_of_succ (a := k) rfl, Nat.mul_right_comm]
  by_cases hp : 1074 ≤ p
  · rw [scaledTo_of_le (Nat.le_succ_of_le hp),
      two_pow_of_succ (a := p - 1074) (Nat.sub_add_comm hp).symm] at h
    rw [scaledTo_of_le hp]
    calc num
        < Nat.pow 2 k * (den * (Nat.pow 2 (p - 1074) * 2)) := h
      _ = Nat.pow 2 k * (den * Nat.pow 2 (p - 1074)) * 2 := by
          rw [Nat.mul_assoc, Nat.mul_assoc]
  · have hunit : num * Nat.pow 2 (1074 - p) = num * Nat.pow 2 (1074 - (p + 1)) * 2 := by
      rw [two_pow_of_succ (a := 1074 - (p + 1)) (by omega), Nat.mul_assoc]
    have hhalf : num * Nat.pow 2 (1074 - (p + 1)) < Nat.pow 2 k * den := by
      by_cases hnext : 1074 ≤ p + 1
      · -- at the unit one both forms are the quotient itself
        have hone : 1074 - (p + 1) = 0 ∧ p + 1 - 1074 = 0 := by omega
        rw [scaledTo_of_le hnext, hone.2] at h
        rw [hone.1]
        have hden : den * Nat.pow 2 0 = den := Nat.mul_one den
        have hnum : num * Nat.pow 2 0 = num := Nat.mul_one num
        rw [hnum]
        rwa [hden] at h
      · rwa [scaledTo_of_lt hnext] at h
    rw [scaledTo_of_lt hp]
    calc num * Nat.pow 2 (1074 - p)
        = num * Nat.pow 2 (1074 - (p + 1)) * 2 := hunit
      _ < Nat.pow 2 k * den * 2 := Nat.mul_lt_mul_of_pos_right hhalf (by decide)

/-- **What is rounded has 53 bits**, or fewer at the smallest unit. -/
theorem placeOf_bounds (hnum : num ≠ 0) (hden : den ≠ 0) :
    (scaledTo num den (placeOf num den)).1 <
      Nat.pow 2 53 * (scaledTo num den (placeOf num den)).2 ∧
    (placeOf num den ≠ 0 → Nat.pow 2 52 * (scaledTo num den (placeOf num den)).2 ≤
      (scaledTo num den (placeOf num den)).1) := by
  unfold placeOf
  dsimp only
  generalize hguess : 1126 + num.log2 - den.log2 - 104 = guess
  by_cases hzero : guess = 0
  · rw [if_pos hzero]
    exact ⟨scaledTo_lt hden (by omega), fun h => absurd rfl h⟩
  · rw [if_neg hzero]
    have hpos : 0 < (scaledTo num den guess).2 := scaledTo_pos (Nat.pos_of_ne_zero hden)
    by_cases hsmall :
        (scaledTo num den guess).1 / (scaledTo num den guess).2 < Nat.pow 2 52
    · rw [if_pos hsmall]
      obtain ⟨lower, rfl⟩ : ∃ lower, guess = lower + 1 := ⟨guess - 1, by omega⟩
      exact ⟨scaledTo_lt_of_succ ((Nat.div_lt_iff_lt_mul hpos).mp hsmall),
        fun _ => le_scaledTo hnum (by omega)⟩
    · rw [if_neg hsmall]
      exact ⟨scaledTo_lt hden (by omega),
        fun _ => (Nat.le_div_iff_mul_le hpos).mp (Nat.le_of_not_lt hsmall)⟩

/-! ### Infinity -/

/-- Halfway between the largest double and `2 ^ 1024`. -/
def overflow : Nat := (Nat.pow 2 54 - 1) * Nat.pow 2 970

/-- The exponent as a variable: nothing should evaluate the power. -/
theorem exists_overflow_eq :
    ∃ e, e = 970 ∧ overflow = (Nat.pow 2 54 - 1) * Nat.pow 2 e := by
  unfold overflow
  generalize 970 = e
  exact ⟨e, rfl, rfl⟩

theorem overflow_pos : 0 < overflow := by
  obtain ⟨e, -, heq⟩ := exists_overflow_eq
  rw [heq]
  exact Nat.mul_pos (by decide) (Nat.pow_pos (by decide))

/-- 53 bits of a smaller unit than the largest are below the halfway point. -/
theorem lt_overflow_of_scaledTo (hp : p < 2045)
    (h : (scaledTo num den p).1 < Nat.pow 2 53 * (scaledTo num den p).2) :
    num < overflow * den := by
  obtain ⟨e, he, heq⟩ := exists_overflow_eq
  have hbits : Nat.pow 2 53 * Nat.pow 2 e ≤ (Nat.pow 2 54 - 1) * Nat.pow 2 e :=
    Nat.mul_le_mul_right _ (by decide)
  rw [heq]
  refine Nat.lt_of_lt_of_le ?_ (Nat.mul_le_mul_right den hbits)
  by_cases hplace : 1074 ≤ p
  · rw [scaledTo_of_le hplace] at h
    calc num
        < Nat.pow 2 53 * (den * Nat.pow 2 (p - 1074)) := h
      _ ≤ Nat.pow 2 53 * (den * Nat.pow 2 e) :=
          Nat.mul_le_mul_left _ (Nat.mul_le_mul_left _ (two_pow_le (by omega)))
      _ = Nat.pow 2 53 * Nat.pow 2 e * den := by rw [Nat.mul_comm den, Nat.mul_assoc]
  · rw [scaledTo_of_lt hplace] at h
    calc num
        ≤ num * Nat.pow 2 (1074 - p) := Nat.le_mul_of_pos_right _ (Nat.pow_pos (by decide))
      _ < Nat.pow 2 53 * den := h
      _ ≤ Nat.pow 2 53 * Nat.pow 2 e * den :=
          Nat.mul_le_mul_right _ (Nat.le_mul_of_pos_right _ (Nat.pow_pos (by decide)))

/-- 53 bits of a larger unit are beyond it. -/
theorem overflow_le_of_scaledTo (hp : 2045 < p)
    (h : Nat.pow 2 52 * (scaledTo num den p).2 ≤ (scaledTo num den p).1) :
    overflow * den ≤ num := by
  obtain ⟨e, he, heq⟩ := exists_overflow_eq
  have hsplit : Nat.pow 2 54 = Nat.pow 2 52 * Nat.pow 2 2 := by decide
  have hunit : Nat.pow 2 e * Nat.pow 2 2 ≤ Nat.pow 2 (p - 1074) := by
    rw [← two_pow_of_add rfl]
    exact two_pow_le (by omega)
  rw [scaledTo_of_le (by omega)] at h
  rw [heq]
  calc (Nat.pow 2 54 - 1) * Nat.pow 2 e * den
      ≤ Nat.pow 2 54 * Nat.pow 2 e * den :=
        Nat.mul_le_mul_right _ (Nat.mul_le_mul_right _ (Nat.sub_le _ _))
    _ = Nat.pow 2 52 * (den * (Nat.pow 2 e * Nat.pow 2 2)) := by
        rw [hsplit, Nat.mul_comm (Nat.pow 2 e), Nat.mul_comm den, ← Nat.mul_assoc,
          ← Nat.mul_assoc]
    _ ≤ Nat.pow 2 52 * (den * Nat.pow 2 (p - 1074)) :=
        Nat.mul_le_mul_left _ (Nat.mul_le_mul_left _ hunit)
    _ ≤ num := h

/-- At the largest unit the mantissa must not be rounded up to 54 bits. -/
theorem lt_overflow_iff_of_scaledTo :
    2 * (scaledTo num den 2045).1 < (2 * Nat.pow 2 53 - 1) * (scaledTo num den 2045).2 ↔
      num < overflow * den := by
  obtain ⟨e, he, heq⟩ := exists_overflow_eq
  have hodd : 2 * Nat.pow 2 53 - 1 = Nat.pow 2 54 - 1 := by decide
  have hunit : 2045 - 1074 = e + 1 := by rw [he]
  rw [scaledTo_of_le (by decide), hodd, hunit, two_pow_of_succ (a := e) rfl, heq]
  generalize Nat.pow 2 54 - 1 = mantissa
  have hlarge : mantissa * (den * (Nat.pow 2 e * 2)) = 2 * (mantissa * Nat.pow 2 e * den) := by
    rw [← Nat.mul_assoc den, Nat.mul_comm den, ← Nat.mul_assoc, Nat.mul_comm _ 2, Nat.mul_assoc]
  dsimp only
  rw [hlarge]
  exact ⟨fun h => Nat.lt_of_mul_lt_mul_left h, fun h => Nat.mul_lt_mul_of_pos_left h (by decide)⟩

/-- The patterns of infinity begin where 54 bits of the largest unit do. -/
theorem bits_lt_iff {place mantissa : Nat} (hhigh : mantissa ≤ Nat.pow 2 53)
    (hlow : place ≠ 0 → Nat.pow 2 52 ≤ mantissa) :
    min (place * Nat.pow 2 52 + mantissa) infinityBits < infinityBits ↔
      place < 2045 ∨ place = 2045 ∧ mantissa < Nat.pow 2 53 := by
  have hunit : Nat.pow 2 52 = 4503599627370496 := by decide
  have htop : Nat.pow 2 53 = 9007199254740992 := by decide
  have hinfinity : infinityBits = 9218868437227405312 := by decide
  rw [hunit] at hlow ⊢
  rw [htop] at hhigh ⊢
  rw [hinfinity]
  omega

/-- **The bits of a quotient stay below those of infinity exactly if it is below the halfway
point.** -/
theorem ratioBits_lt_iff (hden : 0 < den) :
    ratioBits num den < infinityBits ↔ num < overflow * den := by
  by_cases hnum : num = 0
  · subst hnum
    have hzero : ratioBits 0 den = 0 := rfl
    rw [hzero]
    exact iff_of_true (by decide) (Nat.mul_pos overflow_pos hden)
  obtain ⟨hhigh, hlow⟩ := placeOf_bounds hnum (Nat.ne_of_gt hden)
  rw [ratioBits_eq hnum]
  generalize placeOf num den = place at hhigh hlow
  have hscaled : 0 < (scaledTo num den place).2 := scaledTo_pos hden
  have hroundHigh : roundHalfEven (scaledTo num den place).1 (scaledTo num den place).2 ≤
      Nat.pow 2 53 :=
    Nat.le_trans roundHalfEven_le ((Nat.div_lt_iff_lt_mul hscaled).mpr hhigh)
  have hroundLow : place ≠ 0 →
      Nat.pow 2 52 ≤ roundHalfEven (scaledTo num den place).1 (scaledTo num den place).2 :=
    fun hplace => Nat.le_trans ((Nat.le_div_iff_mul_le hscaled).mpr (hlow hplace))
      div_le_roundHalfEven
  rw [bits_lt_iff hroundHigh hroundLow]
  rcases Nat.lt_trichotomy place 2045 with hlt | heq | hgt
  · exact iff_of_true (.inl hlt) (lt_overflow_of_scaledTo hlt hhigh)
  · subst heq
    have hround : roundHalfEven (scaledTo num den 2045).1 (scaledTo num den 2045).2 < Nat.pow 2 53 ↔
        2 * (scaledTo num den 2045).1 < (2 * Nat.pow 2 53 - 1) * (scaledTo num den 2045).2 :=
      roundHalfEven_lt_iff hscaled (Nat.pow_pos (by decide)) (by decide)
    rw [← lt_overflow_iff_of_scaledTo, ← hround]
    exact ⟨fun h => (h.resolve_left (Nat.lt_irrefl _)).2, fun h => .inr ⟨rfl, h⟩⟩
  · refine iff_of_false ?_
      (Nat.not_lt.mpr (overflow_le_of_scaledTo hgt (hlow (Nat.ne_of_gt (Nat.zero_lt_of_lt hgt)))))
    rintro (hlt | ⟨heq, -⟩)
    · exact Nat.lt_asymm hgt hlt
    · exact Nat.ne_of_gt hgt heq

theorem ratioBits_le : ratioBits num den ≤ infinityBits := by
  by_cases hnum : num = 0
  · subst hnum
    exact Nat.zero_le _
  · rw [ratioBits_eq hnum]
    exact Nat.min_le_right _ _

/-- A pattern is a finite double exactly if it is below that of infinity, signs apart. -/
theorem isFinite_ofBits (negative : Bool) {b : Nat} (hb : b ≤ infinityBits) :
    isFinite ⟨UInt64.ofNat ((if negative then signBit else 0) + b)⟩ = true ↔
      b < infinityBits := by
  have hinfinity : infinityBits = 9218868437227405312 := by decide
  have hunit : Nat.pow 2 52 = 4503599627370496 := by decide
  have hsign : signBit = 9223372036854775808 := by decide
  have hhigh : (if negative then signBit else 0) = 0 ∨
      (if negative then signBit else 0) = signBit := by
    cases negative with
    | false => exact .inl rfl
    | true => exact .inr rfl
  generalize (if negative then signBit else 0) = high at hhigh
  rw [hinfinity] at hb ⊢
  rw [hsign] at hhigh
  have hbits : (UInt64.ofNat (high + b)).toNat = high + b := by
    refine UInt64.toNat_ofNat_of_lt' ?_
    have hsize : UInt64.size = 18446744073709551616 := rfl
    omega
  have hrest : (high + b) % signBit = b := by
    rw [hsign]
    omega
  unfold isFinite parts
  dsimp only
  rw [hbits, hrest, hunit]
  by_cases hlarge : b / 4503599627370496 = 2047
  · have hnot : ¬b < 9218868437227405312 := by omega
    rw [if_pos hlarge]
    by_cases hzero : b % 4503599627370496 = 0
    · rw [if_pos hzero]
      exact iff_of_false Bool.false_ne_true hnot
    · rw [if_neg hzero]
      exact iff_of_false Bool.false_ne_true hnot
  · have hless : b < 9218868437227405312 := by omega
    rw [if_neg hlarge]
    by_cases hzero : b / 4503599627370496 = 0
    · rw [if_pos hzero]
      exact iff_of_true rfl hless
    · rw [if_neg hzero]
      exact iff_of_true rfl hless

/-- **A quotient is rounded to a finite double exactly if it is below the halfway point.** -/
theorem isFinite_ofRatio (negative : Bool) (hden : 0 < den) :
    (ofRatio negative num den).isFinite = true ↔ num < overflow * den := by
  unfold ofRatio
  rw [isFinite_ofBits negative ratioBits_le, ratioBits_lt_iff hden]

/-- Whole numbers that a 64-bit word holds are far below the halfway point. -/
theorem natAbs_lt_overflow {n : Int} (hlow : -(Int.pow 2 63) ≤ n) (hhigh : n < Int.pow 2 64) :
    n.natAbs < overflow := by
  have hbound : n.natAbs < Nat.pow 2 65 := by
    have hpow : Int.pow 2 63 = 9223372036854775808 := by decide
    have hpow' : Int.pow 2 64 = 18446744073709551616 := by decide
    have hpow'' : Nat.pow 2 65 = 36893488147419103232 := by decide
    omega
  obtain ⟨e, he, heq⟩ := exists_overflow_eq
  rw [heq]
  calc n.natAbs
      < Nat.pow 2 65 := hbound
    _ ≤ Nat.pow 2 e := two_pow_le (by omega)
    _ ≤ (Nat.pow 2 54 - 1) * Nat.pow 2 e := Nat.le_mul_of_pos_left _ (by decide)

end Binary64

namespace Decimal

/-! ### What digits stand for -/

theorem ten_pow_of_add (a b : Nat) : Nat.pow 10 (a + b) = Nat.pow 10 a * Nat.pow 10 b :=
  Nat.pow_add 10 a b

theorem ten_pow_of_succ (a : Nat) : Nat.pow 10 (a + 1) = 10 * Nat.pow 10 a := Nat.mul_comm _ _

theorem digitValue_of_isDigit {c : Char} (h : isDigit c = true) : digitValue c ≤ 9 := by
  have hrange := toNat_of_isDigit h
  unfold digitValue
  omega

/-- No digit but the zero stands for nothing. -/
theorem digitValue_pos {c : Char} (h : isDigit c = true) (hc : c ≠ '0') : 0 < digitValue c := by
  have hrange := toNat_of_isDigit h
  have hne : c.toNat ≠ 48 := fun heq => hc (Char.toNat_inj.mp heq)
  unfold digitValue
  omega

/-- More digits behind a number. -/
def continueDigits (n : Nat) (ds : List Char) : Nat :=
  ds.foldl (fun n c => 10 * n + digitValue c) n

theorem continueDigits_bounds : ∀ (ds : List Char) (n : Nat), (∀ c ∈ ds, isDigit c = true) →
    n * Nat.pow 10 ds.length ≤ continueDigits n ds ∧
      continueDigits n ds < (n + 1) * Nat.pow 10 ds.length
  | [], n, _ => ⟨Nat.le_of_eq (Nat.mul_one n), Nat.lt_of_lt_of_eq (Nat.lt_succ_self n)
      (Nat.mul_one (n + 1)).symm⟩
  | c :: ds, n, h => by
    have hdigit := digitValue_of_isDigit (h c List.mem_cons_self)
    obtain ⟨hlow, hhigh⟩ := continueDigits_bounds ds (10 * n + digitValue c)
      fun d hd => h d (List.mem_cons_of_mem c hd)
    have hpow : Nat.pow 10 (c :: ds).length = 10 * Nat.pow 10 ds.length := ten_pow_of_succ _
    rw [hpow]
    constructor
    · calc n * (10 * Nat.pow 10 ds.length)
          = 10 * n * Nat.pow 10 ds.length := by rw [← Nat.mul_assoc, Nat.mul_comm n]
        _ ≤ (10 * n + digitValue c) * Nat.pow 10 ds.length :=
            Nat.mul_le_mul_right _ (Nat.le_add_right _ _)
        _ ≤ continueDigits (10 * n + digitValue c) ds := hlow
    · calc continueDigits (10 * n + digitValue c) ds
          < (10 * n + digitValue c + 1) * Nat.pow 10 ds.length := hhigh
        _ ≤ 10 * (n + 1) * Nat.pow 10 ds.length := Nat.mul_le_mul_right _ (by omega)
        _ = (n + 1) * (10 * Nat.pow 10 ds.length) := by
            rw [← Nat.mul_assoc, Nat.mul_comm 10]

theorem natOfDigits_lt {ds : List Char} (h : ∀ c ∈ ds, isDigit c = true) :
    natOfDigits ds < Nat.pow 10 ds.length := by
  have hhigh := (continueDigits_bounds ds 0 h).2
  rwa [Nat.zero_add, Nat.one_mul] at hhigh

/-- Behind a digit that is no zero every place counts. -/
theorem le_natOfDigits {ds : List Char} (h : ∀ c ∈ ds, isDigit c = true)
    (hne : ds ≠ []) (hhead : ds.head? ≠ some '0') : Nat.pow 10 ds.length ≤ 10 * natOfDigits ds := by
  cases ds with
  | nil => exact absurd rfl hne
  | cons c ds =>
    have hc : c ≠ '0' := fun heq => hhead (congrArg some heq)
    have hpos := digitValue_pos (h c List.mem_cons_self) hc
    have hlow := (continueDigits_bounds ds (digitValue c)
      fun d hd => h d (List.mem_cons_of_mem c hd)).1
    have hread : natOfDigits (c :: ds) = continueDigits (digitValue c) ds := by
      show continueDigits (10 * 0 + digitValue c) ds = _
      rw [Nat.mul_zero, Nat.zero_add]
    rw [hread]
    calc Nat.pow 10 (c :: ds).length
        = 10 * (1 * Nat.pow 10 ds.length) := by rw [Nat.one_mul]; exact ten_pow_of_succ _
      _ ≤ 10 * (digitValue c * Nat.pow 10 ds.length) :=
          Nat.mul_le_mul_left _ (Nat.mul_le_mul_right _ hpos)
      _ ≤ 10 * continueDigits (digitValue c) ds := Nat.mul_le_mul_left _ hlow

/-- Zeros in front do not count. -/
theorem natOfDigits_dropZeros : ∀ ds : List Char,
    natOfDigits (ds.dropWhile (· = '0')) = natOfDigits ds
  | [] => rfl
  | c :: ds => by
    by_cases hc : c = '0'
    · subst hc
      have hread : natOfDigits ('0' :: ds) = natOfDigits ds := rfl
      rw [List.dropWhile_cons, if_pos (by decide), hread, natOfDigits_dropZeros ds]
    · rw [List.dropWhile_cons, if_neg (by simpa using hc)]

/-! ### Decimals that are rounded to a finite double -/

/-- The number `n * 10 ^ e` is below the halfway point behind the largest double. -/
def Below (n : Nat) (e : Int) : Prop :=
  n * Nat.pow 10 e.toNat < Binary64.overflow * Nat.pow 10 (-e).toNat

instance (n : Nat) (e : Int) : Decidable (Below n e) := inferInstanceAs (Decidable (_ < _))

theorem overflow_le_two_pow {k : Nat} (hk : 1024 ≤ k) : Binary64.overflow ≤ Nat.pow 2 k := by
  obtain ⟨e, he, heq⟩ := Binary64.exists_overflow_eq
  rw [heq]
  calc (Nat.pow 2 54 - 1) * Nat.pow 2 e
      ≤ Nat.pow 2 54 * Nat.pow 2 e := Nat.mul_le_mul_right _ (Nat.sub_le _ _)
    _ = Nat.pow 2 (54 + e) := (Binary64.two_pow_of_add rfl).symm
    _ ≤ Nat.pow 2 k := Binary64.two_pow_le (by omega)

theorem overflow_le_ten_pow {k : Nat} (hk : 316 ≤ k) : Binary64.overflow ≤ Nat.pow 10 k :=
  Nat.le_trans (overflow_le_two_pow (by omega)) (Shortest.two_pow_le k)

/-- The stand-in for what is far beyond the doubles is infinite. -/
theorem isFinite_huge (negative : Bool) {k : Nat} (hk : 1024 ≤ k) :
    (Binary64.ofRatio negative (Nat.pow 2 k) 1).isFinite = false := by
  rw [Bool.eq_false_iff, ne_eq, Binary64.isFinite_ofRatio negative (by decide), Nat.mul_one]
  exact Nat.not_lt.mpr (overflow_le_two_pow hk)

/-- **A decimal is rounded to a finite double exactly if it is below the halfway point**, whether
it is decided by its digits or by the power. -/
theorem isFinite_exact (negative : Bool) {n digits : Nat} {e : Int}
    (hhigh : n < Nat.pow 10 digits) (hlow : n ≠ 0 → Nat.pow 10 digits ≤ 10 * n) :
    (exact negative n digits e).isFinite = true ↔ Below n e := by
  have hpos (k : Nat) : 0 < Binary64.overflow * Nat.pow 10 k :=
    Nat.mul_pos Binary64.overflow_pos (Nat.pow_pos (by decide))
  unfold exact Below
  generalize hk : 1100 = k
  by_cases hn : n = 0
  · rw [if_pos hn, Binary64.isFinite_ofRatio negative (by decide), hn, Nat.zero_mul, Nat.mul_one]
    exact iff_of_true Binary64.overflow_pos (hpos _)
  rw [if_neg hn]
  by_cases hlarge : 400 < e + digits
  · -- the first digit alone is beyond
    rw [if_pos hlarge, isFinite_huge negative (by omega)]
    refine iff_of_false Bool.false_ne_true (Nat.not_lt.mpr ?_)
    refine Nat.le_of_mul_le_mul_left ?_ (show 0 < 10 by decide)
    obtain ⟨m, hm⟩ : ∃ m, m = 400 := ⟨_, rfl⟩
    calc 10 * (Binary64.overflow * Nat.pow 10 (-e).toNat)
        ≤ 10 * (Nat.pow 10 m * Nat.pow 10 (-e).toNat) :=
          Nat.mul_le_mul_left _ (Nat.mul_le_mul_right _ (overflow_le_ten_pow (by omega)))
      _ = Nat.pow 10 (m + (-e).toNat + 1) := by rw [ten_pow_of_succ, ten_pow_of_add]
      _ ≤ Nat.pow 10 (digits + e.toNat) := Nat.pow_le_pow_right (by decide) (by omega)
      _ = Nat.pow 10 digits * Nat.pow 10 e.toNat := ten_pow_of_add _ _
      _ ≤ 10 * n * Nat.pow 10 e.toNat := Nat.mul_le_mul_right _ (hlow hn)
      _ = 10 * (n * Nat.pow 10 e.toNat) := Nat.mul_assoc _ _ _
  rw [if_neg hlarge]
  by_cases hsmall : e + digits < -400
  · -- all digits together stand far behind the point
    rw [if_pos hsmall, Binary64.isFinite_ofRatio negative (by decide), Nat.mul_one]
    have hnat : e.toNat = 0 := by omega
    refine iff_of_true Binary64.overflow_pos ?_
    rw [hnat]
    calc n * 1
        = n := Nat.mul_one n
      _ < Nat.pow 10 digits := hhigh
      _ ≤ Nat.pow 10 (-e).toNat := Nat.pow_le_pow_right (by decide) (by omega)
      _ ≤ Binary64.overflow * Nat.pow 10 (-e).toNat :=
          Nat.le_mul_of_pos_left _ Binary64.overflow_pos
  rw [if_neg hsmall]
  by_cases hnonneg : 0 ≤ e
  · have hnat : (-e).toNat = 0 := by omega
    rw [if_pos hnonneg, Binary64.isFinite_ofRatio negative (by decide), hnat]
  · have hnat : e.toNat = 0 := by omega
    have hten : 0 < Nat.pow 10 (-e).toNat := Nat.pow_pos (by decide)
    rw [if_neg hnonneg, Binary64.isFinite_ofRatio negative hten, hnat]
    exact iff_of_eq (congrArg (· < _) (Nat.mul_one n).symm)

end Decimal

end Relay
