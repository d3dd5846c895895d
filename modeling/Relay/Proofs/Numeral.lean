/-
# Numerals that are read as they are written

A numeral is an optional sign, digits without a leading zero, an optional fraction and an
optional exponent. What is written of one is read as the numeral, and the reader stops where it
ends, unless what follows could go on with it: so a number is read in the middle of a document
as it is read by itself. A whole number that a 64-bit word holds is read as itself.

Key definitions: `Read.Follows`, `Numeral.Proper`, `Numeral.text`, `Numeral.ofInt`.
Key theorems: `natOfDigits_toDigits`, `numeral?_text`, `Numeral.value?_ofInt`.
-/
import Relay.Json.Print
import Relay.Json.Read
import Relay.Text.Blank

namespace Relay

/-! ### Digits -/

namespace Decimal

theorem isDigit_iff {c : Char} : isDigit c = true ↔ c.isDigit = true := by
  simp [isDigit, Char.isDigit, Char.le_def]

/-- The digits stand between these code points. -/
theorem toNat_of_isDigit {c : Char} (h : isDigit c = true) : 48 ≤ c.toNat ∧ c.toNat ≤ 57 := by
  unfold isDigit at h
  rw [Bool.and_eq_true, decide_eq_true_iff, decide_eq_true_iff] at h
  exact ⟨UInt32.le_iff_toNat_le.mp (Char.le_def.mp h.1),
    UInt32.le_iff_toNat_le.mp (Char.le_def.mp h.2)⟩

/-- Digits are taken in up to something else. -/
theorem span_digits {ds rest : List Char} (hds : ∀ c ∈ ds, isDigit c = true)
    (hrest : ∀ c, rest.head? = some c → isDigit c = false) :
    (ds ++ rest).takeWhile isDigit = ds ∧ (ds ++ rest).dropWhile isDigit = rest := by
  have hdrop : rest.dropWhile isDigit = rest := Text.dropWhile_of_head? hrest
  have htake : rest.takeWhile isDigit = [] := by
    have hsplit := List.takeWhile_append_dropWhile (p := isDigit) (l := rest)
    rwa [hdrop, List.append_left_eq_self] at hsplit
  rw [List.takeWhile_append_of_pos hds, List.dropWhile_append_of_pos hds, htake, hdrop,
    List.append_nil]
  exact ⟨rfl, rfl⟩

theorem isDigit_of_mem_toDigits {n : Nat} : ∀ c ∈ Nat.toDigits 10 n, isDigit c = true :=
  fun _ hc => isDigit_iff.mpr (Nat.isDigit_of_mem_toDigits (by decide) (by decide) hc)

/-- **A number is what its digits stand for.** -/
theorem natOfDigits_toDigits (n : Nat) : natOfDigits (Nat.toDigits 10 n) = n := by
  have heq : natOfDigits (Nat.toDigits 10 n) = Nat.ofDigitChars 10 (Nat.toDigits 10 n) 0 := rfl
  rw [heq, Nat.ofDigitChars_toDigits (by decide) (by decide)]

/-- The first digit is no zero, but for that of zero itself. -/
theorem head?_toDigits {n : Nat} (hn : n ≠ 0) : (Nat.toDigits 10 n).head? ≠ some '0' := by
  induction n using Nat.strongRecOn with
  | ind n ih =>
    by_cases hlt : n < 10
    · rw [Nat.toDigits_of_lt_base hlt]
      simpa using hn
    · have hten : 10 ≤ n := Nat.le_of_not_lt hlt
      have hrest : n / 10 ≠ 0 := by omega
      have hdigits : Nat.toDigits 10 (n / 10) ≠ [] := Nat.toDigits_ne_nil
      rw [Nat.toDigits_of_base_le (by decide) hten, List.head?_append, List.head?_eq_some_head hdigits,
        Option.some_or, ← List.head?_eq_some_head hdigits]
      exact ih (n / 10) (by omega) hrest

end Decimal

namespace Json.Read

open Decimal

variable {rest : List Char}

/-! ### The parts of a numeral -/

/-- What follows could not go on with a numeral. -/
def Follows (rest : List Char) : Prop :=
  ∀ c, rest.head? = some c → isDigit c = false ∧ c ≠ '.' ∧ c ≠ 'e' ∧ c ≠ 'E'

theorem follows_nil : Follows [] := fun _ h => nomatch h

theorem follows_cons {c : Char} (h : isDigit c = false ∧ c ≠ '.' ∧ c ≠ 'e' ∧ c ≠ 'E')
    (cs : List Char) : Follows (c :: cs) := by
  rintro _ ⟨⟩
  exact h

theorem digits1?_append {ds : List Char} (hne : ds ≠ []) (hds : ∀ c ∈ ds, isDigit c = true)
    (hrest : ∀ c, rest.head? = some c → isDigit c = false) :
    digits1? (ds ++ rest) = some (ds, rest) := by
  obtain ⟨htake, hdrop⟩ := span_digits hds hrest
  unfold digits1?
  rw [htake, hdrop]
  cases ds with
  | nil => exact absurd rfl hne
  | cons d ds => rfl

/-! ### Written numerals -/

/-- Digits, at least one. -/
structure Digits (ds : List Char) : Prop where
  ne_nil : ds ≠ []
  isDigit : ∀ c ∈ ds, isDigit c = true

/-- Each part has digits, and no zero stands in front of other digits. -/
structure Numeral.Proper (n : Numeral) : Prop where
  whole : Digits n.whole
  zero : n.whole.head? = some '0' → n.whole.length = 1
  fraction : ∀ ds, n.fraction = some ds → Digits ds
  exponent : ∀ down ds, n.exponent = some (down, ds) → Digits ds

def fractionText : Option (List Char) → List Char
  | none => []
  | some ds => '.' :: ds

def exponentText : Option (Bool × List Char) → List Char
  | none => []
  | some (down, ds) => 'e' :: (if down then '-' else '+') :: ds

/-- A numeral as it is written, with a sign before every exponent. -/
def Numeral.text (n : Numeral) : List Char :=
  (if n.negative then ['-'] else []) ++ (n.whole ++ (fractionText n.fraction ++ exponentText n.exponent))

theorem Digits.exists_cons {ds : List Char} (h : Digits ds) :
    ∃ c cs, ds = c :: cs ∧ Decimal.isDigit c = true := by
  cases ds with
  | nil => exact absurd rfl h.ne_nil
  | cons c cs => exact ⟨c, cs, rfl, h.isDigit c List.mem_cons_self⟩

/-- No sign is a digit. -/
theorem ne_sign_of_isDigit {c : Char} (h : isDigit c = true) : c ≠ '-' ∧ c ≠ '+' := by
  constructor
  · rintro rfl
    exact absurd h (by decide)
  · rintro rfl
    exact absurd h (by decide)

theorem sign_digits {ds : List Char} (h : Digits ds) (rest : List Char) :
    sign (ds ++ rest) = (false, ds ++ rest) := by
  obtain ⟨c, cs, rfl, hc⟩ := h.exists_cons
  rw [List.cons_append, sign]
  intro r heq
  exact (ne_sign_of_isDigit hc).1 (List.cons.inj heq).1

theorem sign_text (negative : Bool) {ds : List Char} (h : Digits ds) (rest : List Char) :
    sign ((if negative then ['-'] else []) ++ (ds ++ rest)) = (negative, ds ++ rest) := by
  cases negative with
  | true => rfl
  | false => exact sign_digits h rest

theorem fraction?_text {fraction : Option (List Char)}
    (h : ∀ ds, fraction = some ds → Digits ds)
    (hrest : ∀ c, rest.head? = some c → isDigit c = false ∧ c ≠ '.') :
    fraction? (fractionText fraction ++ rest) = some (fraction, rest) := by
  cases fraction with
  | none =>
    rw [fractionText, List.nil_append, fraction?]
    intro r heq
    exact (hrest '.' (by rw [heq]; rfl)).2 rfl
  | some ds =>
    obtain ⟨hne, hds⟩ := h ds rfl
    have hread := digits1?_append hne hds fun c hc => (hrest c hc).1
    rw [fractionText, List.cons_append, fraction?, hread]
    rfl

theorem exponent?_text {exponent : Option (Bool × List Char)}
    (h : ∀ down ds, exponent = some (down, ds) → Digits ds) (hrest : Follows rest) :
    exponent? (exponentText exponent ++ rest) = some (exponent, rest) := by
  match exponent with
  | none =>
    rw [exponentText, List.nil_append]
    cases rest with
    | nil => rfl
    | cons c cs =>
      obtain ⟨-, -, hlower, hupper⟩ := hrest c rfl
      rw [exponent?, if_neg (by simp [hlower, hupper])]
  | some (down, ds) =>
    obtain ⟨hne, hds⟩ := h down ds rfl
    have hread := digits1?_append hne hds fun c hc => (hrest c hc).1
    have hsign : exponentSign ((if down then '-' else '+') :: (ds ++ rest)) = (down, ds ++ rest) := by
      cases down <;> rfl
    rw [exponentText, List.cons_append, List.cons_append, exponent?, if_pos (by decide), hsign, hread]
    rfl

/-- Behind the whole digits stands something else than a digit. -/
theorem head?_exponentText (exponent : Option (Bool × List Char)) (hrest : Follows rest) :
    ∀ c, (exponentText exponent ++ rest).head? = some c → isDigit c = false ∧ c ≠ '.' := by
  intro c hc
  match exponent with
  | none => exact ⟨(hrest c hc).1, (hrest c hc).2.1⟩
  | some (down, ds) =>
    cases hc
    decide

/-- **A numeral that is written is read**, and nothing of what follows it. -/
theorem numeral?_text {n : Numeral} (hn : n.Proper) (hrest : Follows rest) :
    numeral? (n.text ++ rest) = some (n, rest) := by
  obtain ⟨negative, whole, fraction, exponent⟩ := n
  have hexponent := head?_exponentText exponent hrest
  have hbehind : ∀ c, (fractionText fraction ++ (exponentText exponent ++ rest)).head? = some c →
      isDigit c = false := by
    intro c hc
    cases fraction with
    | none => exact (hexponent c hc).1
    | some ds =>
      cases hc
      decide
  have hzero : ¬(decide (whole.length > 1) && whole.head? == some '0') = true := by
    intro h
    obtain ⟨hlength, hhead⟩ := (Bool.and_eq_true _ _).mp h
    have hone : whole.length = 1 := hn.zero (beq_iff_eq.mp hhead)
    have hmany : 1 < whole.length := of_decide_eq_true hlength
    omega
  have htext : Numeral.text ⟨negative, whole, fraction, exponent⟩ ++ rest =
      (if negative then ['-'] else []) ++
        (whole ++ (fractionText fraction ++ (exponentText exponent ++ rest))) := by
    simp [Numeral.text]
  unfold numeral?
  rw [htext, sign_text negative hn.whole]
  dsimp only
  rw [digits1?_append hn.whole.ne_nil hn.whole.isDigit hbehind]
  dsimp only [Option.bind_eq_bind, Option.bind_some]
  rw [if_neg hzero, fraction?_text hn.fraction hexponent]
  dsimp only [Option.bind_some]
  rw [exponent?_text hn.exponent hrest]
  rfl

theorem exists_text {n : Numeral} (hn : n.Proper) :
    ∃ c cs, n.text = c :: cs ∧ (c = '-' ∨ isDigit c = true) := by
  obtain ⟨c, cs, hwhole, hc⟩ := hn.whole.exists_cons
  unfold Numeral.text
  cases n.negative with
  | true => exact ⟨'-', _, rfl, .inl rfl⟩
  | false => exact ⟨c, _, by rw [hwhole]; rfl, .inr hc⟩

/-! ### Whole numbers -/

theorem digits_toDigits (n : Nat) : Digits (Nat.toDigits 10 n) :=
  ⟨Nat.toDigits_ne_nil, isDigit_of_mem_toDigits⟩

/-- A whole number in decimal digits. -/
def Numeral.ofInt (n : Int) : Numeral := ⟨decide (n < 0), Nat.toDigits 10 n.natAbs, none, none⟩

theorem Numeral.proper_ofInt (n : Int) : (Numeral.ofInt n).Proper where
  whole := digits_toDigits _
  zero hhead := by
    have hzero : n.natAbs = 0 := by
      by_cases hn : n.natAbs = 0
      · exact hn
      · exact absurd hhead (head?_toDigits hn)
    show (Nat.toDigits 10 n.natAbs).length = 1
    rw [hzero]
    rfl
  fraction _ h := nomatch h
  exponent _ _ h := nomatch h

theorem Numeral.text_ofInt (n : Int) : (Numeral.ofInt n).text = printNumber (.int n) := by
  have htext : (Numeral.ofInt n).text =
      (if decide (n < 0) then ['-'] else []) ++ Nat.toDigits 10 n.natAbs := by
    simp [Numeral.text, Numeral.ofInt, fractionText, exponentText]
  rw [htext, printNumber, Int.toString_eq_repr, Int.repr_eq_if]
  by_cases hn : 0 ≤ n
  · have habs : n.toNat = n.natAbs := by omega
    rw [if_pos hn, if_neg (by simpa using hn), Nat.toList_repr, habs]
    rfl
  · have habs : (-n).toNat = n.natAbs := by omega
    rw [if_neg hn, if_pos (by simpa using hn), String.toList_append, Nat.toList_repr, habs]
    rfl

/-- **A whole number that a 64-bit word holds is read as itself.** -/
theorem Numeral.value?_ofInt {n : Int} (hlow : -(Int.pow 2 63) ≤ n) (hhigh : n < Int.pow 2 64) :
    (Numeral.ofInt n).value? = some (.int n) := by
  have hpow : (Int.pow 2 63 : Int) = 9223372036854775808 := by decide
  have hpow' : (Int.pow 2 64 : Int) = 18446744073709551616 := by decide
  rw [hpow] at hlow
  rw [hpow'] at hhigh
  unfold Numeral.value? Numeral.ofInt
  dsimp only
  rw [natOfDigits_toDigits]
  by_cases hn : n < 0
  · have hnat : n.natAbs ≠ 0 ∧ n.natAbs ≤ Nat.pow 2 63 := by
      have hpow : Nat.pow 2 63 = 9223372036854775808 := by decide
      rw [hpow]
      omega
    have hneg : -(n.natAbs : Int) = n := by omega
    rw [if_neg (by simp [hn]), if_pos (by simp [hn, hnat]), hneg]
  · have hnat : n.natAbs < Nat.pow 2 64 := by
      have hpow : Nat.pow 2 64 = 18446744073709551616 := by decide
      rw [hpow]
      omega
    have hpos : (n.natAbs : Int) = n := by omega
    rw [if_pos (by simp [hn, hnat]), hpos]

end Json.Read
end Relay
