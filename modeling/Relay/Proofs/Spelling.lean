/-
# Numbers as they are spelled

A text is read as a double exactly if it spells one: an optional sign, and then digits with at
most one point among or around them and an optional exponent, or one of three words. The double
is finite exactly if it is not spelled by a word and the number that is spelled stays below the
halfway point behind the largest double: with more digits or a larger exponent it is read all the
same, as infinity. A text is read as a count exactly if it is digits behind an optional plus sign
and the number fits into 64 bits.

Key definitions: `Decimal.Spelling`, `Decimal.IsWord`, `Decimal.Spelled`, `Decimal.SpelledFinite`,
`Decimal.SpelledCount`.
Key theorems: `magnitude?_text`, `exists_of_magnitude?`, `exists_float?_iff`,
`isFinite_of_float?`, `unsigned?_eq_some_iff`.
-/
import Relay.Proofs.Rounding
import Relay.Decimal.Float
import Relay.Decimal.Whole

namespace Relay.Decimal

open Json.Read (Digits fractionText)

/-! ### Signs -/

/-- A sign as it is written; true is minus. -/
def signText : Option Bool → List Char
  | none => []
  | some negative => [if negative then '-' else '+']

/-- Whether there is a minus sign in front, and what is behind the sign. -/
def cutSign (cs : List Char) : Bool × List Char :=
  match cs with
  | '-' :: r => (true, r)
  | '+' :: r => (false, r)
  | _ => (false, cs)

/-- Text that no sign begins. -/
def NoSign (cs : List Char) : Prop := ∀ c, cs.head? = some c → c ≠ '-' ∧ c ≠ '+'

theorem cutSign_of_noSign {cs : List Char} (h : NoSign cs) : cutSign cs = (false, cs) := by
  cases cs with
  | nil => rfl
  | cons c cs =>
    obtain ⟨hminus, hplus⟩ := h c rfl
    rw [cutSign]
    · intro r heq
      exact hminus (List.cons.inj heq).1
    · intro r heq
      exact hplus (List.cons.inj heq).1

theorem cutSign_signText (sign : Option Bool) {cs : List Char} (h : NoSign cs) :
    cutSign (signText sign ++ cs) = (sign == some true, cs) := by
  rcases sign with _ | _ | _
  · exact cutSign_of_noSign h
  · rfl
  · rfl

theorem cutSign_eq (cs : List Char) :
    cutSign cs = match cs with
      | '-' :: r => (true, r)
      | '+' :: r => (false, r)
      | cs => (false, cs) := by
  unfold cutSign
  split <;> rfl

theorem exists_cutSign (cs : List Char) : ∃ sign, cs = signText sign ++ (cutSign cs).2 := by
  unfold cutSign
  split
  · exact ⟨some true, rfl⟩
  · exact ⟨some false, rfl⟩
  · exact ⟨none, rfl⟩

theorem noSign_of_isDigit {cs : List Char} (h : ∀ c ∈ cs, isDigit c = true) : NoSign cs :=
  fun c hc => Json.Read.ne_sign_of_isDigit (h c (List.mem_of_head? hc))

/-! ### Magnitudes -/

/-- An exponent behind its letter. -/
structure Exponent where
  letter : Char
  sign : Option Bool
  digits : List Char

namespace Exponent

structure Proper (x : Exponent) : Prop where
  letter : x.letter = 'e' ∨ x.letter = 'E'
  digits : Digits x.digits

def text (x : Exponent) : List Char := x.letter :: (signText x.sign ++ x.digits)

def value (x : Exponent) : Int :=
  if x.sign == some true then -(natOfDigits x.digits : Int) else natOfDigits x.digits

end Exponent

/-- The digits of a magnitude around its point, and its exponent. -/
structure Spelling where
  whole : List Char
  fraction : Option (List Char)
  exponent : Option Exponent

namespace Spelling

/-- All digits, as if there were no point. -/
def digits (p : Spelling) : List Char := p.whole ++ p.fraction.getD []

/-- The power of ten that the last digit counts. -/
def place (p : Spelling) : Int :=
  (p.exponent.map Exponent.value).getD 0 - (p.fraction.getD []).length

def text (p : Spelling) : List Char :=
  p.whole ++ (fractionText p.fraction ++ (p.exponent.map Exponent.text).getD [])

/-- There is a digit on one side of the point at least. -/
structure Proper (p : Spelling) : Prop where
  digits : Digits p.digits
  exponent : ∀ x, p.exponent = some x → x.Proper

/-- The double that the magnitude is read as, with a sign. -/
def rounded (negative : Bool) (p : Spelling) : Binary64 :=
  let ds := p.digits.dropWhile (· = '0')
  exact negative (natOfDigits ds) ds.length p.place

/-- The magnitude is below the halfway point behind the largest double. -/
def Small (p : Spelling) : Prop := Below (natOfDigits p.digits) p.place

instance (p : Spelling) : Decidable p.Small := inferInstanceAs (Decidable (Below _ _))

theorem isDigit_of_mem_whole {p : Spelling} (hp : p.Proper) : ∀ c ∈ p.whole, isDigit c = true :=
  fun c hc => hp.digits.isDigit c (List.mem_append_left _ hc)

theorem isDigit_of_mem_fraction {p : Spelling} (hp : p.Proper) :
    ∀ c ∈ p.fraction.getD [], isDigit c = true :=
  fun c hc => hp.digits.isDigit c (List.mem_append_right _ hc)

/-- A digit or the point is in front. -/
theorem head?_text {p : Spelling} (hp : p.Proper) {c : Char} (hc : p.text.head? = some c) :
    isDigit c = true ∨ c = '.' := by
  obtain ⟨whole, fraction, exponent⟩ := p
  cases whole with
  | cons d ds =>
    cases hc
    exact .inl (isDigit_of_mem_whole hp _ List.mem_cons_self)
  | nil =>
    cases fraction with
    | none => exact absurd rfl hp.digits.ne_nil
    | some ds =>
      cases hc
      exact .inr rfl

theorem noSign_text {p : Spelling} (hp : p.Proper) : NoSign p.text := by
  intro c hc
  rcases head?_text hp hc with hdigit | rfl
  · exact Json.Read.ne_sign_of_isDigit hdigit
  · decide

/-- **A magnitude is read as a finite double exactly if it is small.** -/
theorem isFinite_rounded (negative : Bool) {p : Spelling} (hp : p.Proper) :
    (p.rounded negative).isFinite = true ↔ p.Small := by
  have hdigits : ∀ c ∈ p.digits.dropWhile (· = '0'), isDigit c = true :=
    fun c hc => hp.digits.isDigit c ((List.dropWhile_suffix _).subset hc)
  have hhigh := natOfDigits_lt hdigits
  have hlow (hne : natOfDigits (p.digits.dropWhile (· = '0')) ≠ 0) :
      Nat.pow 10 (p.digits.dropWhile (· = '0')).length ≤
        10 * natOfDigits (p.digits.dropWhile (· = '0')) := by
    refine le_natOfDigits hdigits ?_ fun hhead => ?_
    · intro hnil
      rw [hnil] at hne
      exact hne rfl
    · have hnot := Text.not_of_head?_dropWhile hhead
      exact absurd hnot (by decide)
  unfold rounded Small
  dsimp only
  rw [isFinite_exact negative hhigh hlow, natOfDigits_dropZeros]

/-- The powers of ten around the largest double. -/
example : Small ⟨['1'], none, some ⟨'e', none, "308".toList⟩⟩ ∧
    ¬Small ⟨['1'], none, some ⟨'e', none, "309".toList⟩⟩ := by decide +kernel

end Spelling

/-! ### Reading exponents -/

theorem digits_iff {ds : List Char} :
    (ds.isEmpty || !ds.all isDigit) = false ↔ Digits ds := by
  rw [Bool.or_eq_false_iff, Bool.not_eq_false', List.all_eq_true, List.isEmpty_eq_false_iff]
  exact ⟨fun h => ⟨h.1, h.2⟩, fun h => ⟨h.ne_nil, h.isDigit⟩⟩

theorem exponent?_eq (cs : List Char) :
    exponent? cs =
      if (cutSign cs).2.isEmpty || !(cutSign cs).2.all isDigit then none
      else some (if (cutSign cs).1 then -(natOfDigits (cutSign cs).2 : Int)
        else natOfDigits (cutSign cs).2) := by
  unfold exponent?
  split
  rename_i negative ds heq
  have hcut : cutSign cs = (negative, ds) := heq
  rw [hcut]
  rfl

theorem exponent?_text {x : Exponent} (hx : x.Proper) :
    exponent? (signText x.sign ++ x.digits) = some x.value := by
  have hcut := cutSign_signText x.sign (noSign_of_isDigit hx.digits.isDigit)
  rw [exponent?_eq, hcut]
  dsimp only
  rw [digits_iff.mpr hx.digits, if_neg Bool.false_ne_true, Exponent.value]

/-- What stands behind the digits: an exponent, or nothing. -/
def behind? : List Char → Option Int
  | [] => some 0
  | c :: cs => if c = 'e' || c = 'E' then exponent? cs else none

theorem behind?_text {x : Option Exponent} (hx : ∀ y, x = some y → y.Proper) :
    behind? ((x.map Exponent.text).getD []) = some ((x.map Exponent.value).getD 0) := by
  cases x with
  | none => rfl
  | some y =>
    have hletter : (y.letter = 'e' || y.letter = 'E') = true := by
      simpa using (hx y rfl).letter
    show behind? (y.letter :: (signText y.sign ++ y.digits)) = some y.value
    rw [behind?, if_pos hletter, exponent?_text (hx y rfl)]

theorem exists_of_behind? {cs : List Char} {e : Int} (h : behind? cs = some e) :
    ∃ x : Option Exponent, (∀ y, x = some y → y.Proper) ∧
      cs = (x.map Exponent.text).getD [] := by
  cases cs with
  | nil =>
    refine ⟨none, ?_, rfl⟩
    rintro y ⟨⟩
  | cons c cs =>
    rw [behind?] at h
    by_cases hletter : (c = 'e' || c = 'E') = true
    · rw [if_pos hletter, exponent?_eq] at h
      cases hdigits : (cutSign cs).2.isEmpty || !(cutSign cs).2.all isDigit with
      | true =>
        rw [hdigits] at h
        cases h
      | false =>
        obtain ⟨sign, hcs⟩ := exists_cutSign cs
        refine ⟨some ⟨c, sign, (cutSign cs).2⟩, ?_, congrArg (c :: ·) hcs⟩
        rintro _ ⟨⟩
        exact ⟨by simpa using hletter, digits_iff.mp hdigits⟩
    · rw [if_neg hletter] at h
      cases h

/-! ### Reading magnitudes -/

/-- The digits end where no other digit stands, and without a fraction no point. -/
def Ends (fraction : Option (List Char)) (rest : List Char) : Prop :=
  ∀ c, rest.head? = some c → isDigit c = false ∧ (fraction = none → c ≠ '.')

/-- The digits behind a point, if there is one, and what is behind them. -/
def pointed (cs : List Char) : List Char × List Char :=
  match cs with
  | '.' :: r => (r.takeWhile isDigit, r.dropWhile isDigit)
  | _ => ([], cs)

theorem magnitude?_eq (negative : Bool) (cs : List Char) :
    magnitude? negative cs =
      let whole := cs.takeWhile isDigit
      let (fraction, rest) := pointed (cs.dropWhile isDigit)
      if whole.isEmpty && fraction.isEmpty then none
      else (behind? rest).map fun e =>
        let ds := (whole ++ fraction).dropWhile (· = '0')
        exact negative (natOfDigits ds) ds.length (e - fraction.length) := by
  unfold magnitude?
  extract_lets whole behind
  split
  rename_i fraction rest heq
  have hpointed : pointed (cs.dropWhile isDigit) = (fraction, rest) := heq
  rw [hpointed]
  congr 1
  cases rest with
  | nil => rfl
  | cons c r =>
    dsimp only
    rw [behind?]
    split
    · cases exponent? r <;> rfl
    · rfl

theorem pointed_fractionText {fraction : Option (List Char)} {rest : List Char}
    (hfraction : ∀ c ∈ fraction.getD [], isDigit c = true) (hrest : Ends fraction rest) :
    pointed (fractionText fraction ++ rest) = (fraction.getD [], rest) := by
  cases fraction with
  | none =>
    rw [fractionText, List.nil_append, pointed]
    · rfl
    · rintro r rfl
      exact (hrest '.' rfl).2 rfl rfl
  | some ds =>
    have hds : ∀ c ∈ ds, isDigit c = true := hfraction
    obtain ⟨htake, hdrop⟩ := span_digits hds fun c hc => (hrest c hc).1
    rw [fractionText, List.cons_append, pointed, htake, hdrop]
    rfl

/-- What a magnitude is read as, part by part. -/
theorem magnitude?_parts (negative : Bool) {whole rest : List Char} {fraction : Option (List Char)}
    (hwhole : ∀ c ∈ whole, isDigit c = true)
    (hfraction : ∀ c ∈ fraction.getD [], isDigit c = true) (hrest : Ends fraction rest) :
    magnitude? negative (whole ++ (fractionText fraction ++ rest)) =
      if whole.isEmpty && (fraction.getD []).isEmpty then none
      else (behind? rest).map fun e =>
        let ds := (whole ++ fraction.getD []).dropWhile (· = '0')
        exact negative (natOfDigits ds) ds.length (e - (fraction.getD []).length) := by
  have hpoint : ∀ c, (fractionText fraction ++ rest).head? = some c → isDigit c = false := by
    intro c hc
    cases fraction with
    | none => exact (hrest c hc).1
    | some ds =>
      cases hc
      decide
  obtain ⟨htake, hdrop⟩ := span_digits hwhole hpoint
  rw [magnitude?_eq, htake, hdrop, pointed_fractionText hfraction hrest]

/-- Every text is digits up to a first point or something else, and what is behind them. -/
theorem exists_parts (cs : List Char) : ∃ (whole : List Char) (fraction : Option (List Char))
    (rest : List Char), cs = whole ++ (fractionText fraction ++ rest) ∧
      (∀ c ∈ whole, isDigit c = true) ∧ (∀ c ∈ fraction.getD [], isDigit c = true) ∧
        Ends fraction rest := by
  have htaken (ds : List Char) : ∀ c ∈ ds.takeWhile isDigit, isDigit c = true :=
    fun c hc => List.all_eq_true.mp List.all_takeWhile c hc
  have hnot {ds : List Char} {c : Char} (hc : (ds.dropWhile isDigit).head? = some c) :
      isDigit c = false := Text.not_of_head?_dropWhile hc
  by_cases hpoint : ∃ r, cs.dropWhile isDigit = '.' :: r
  · obtain ⟨r, hr⟩ := hpoint
    refine ⟨cs.takeWhile isDigit, some (r.takeWhile isDigit), r.dropWhile isDigit, ?_, htaken cs,
      htaken r, fun c hc => ⟨hnot hc, ?_⟩⟩
    · rw [fractionText, List.cons_append, List.takeWhile_append_dropWhile, ← hr,
        List.takeWhile_append_dropWhile]
    · rintro ⟨⟩
  · refine ⟨cs.takeWhile isDigit, none, cs.dropWhile isDigit, ?_, htaken cs,
      fun c hc => absurd hc List.not_mem_nil, fun c hc => ⟨hnot hc, ?_⟩⟩
    · rw [fractionText, List.nil_append, List.takeWhile_append_dropWhile]
    · rintro - rfl
      obtain ⟨r, hr⟩ := List.head?_eq_some_iff.mp hc
      exact hpoint ⟨r, hr⟩

theorem ends_text {p : Spelling} (hp : p.Proper) :
    Ends p.fraction ((p.exponent.map Exponent.text).getD []) := by
  intro c hc
  cases hexponent : p.exponent with
  | none =>
    rw [hexponent] at hc
    cases hc
  | some x =>
    rw [hexponent] at hc
    cases hc
    rcases (hp.exponent x hexponent).letter with hletter | hletter
    · rw [hletter]
      exact ⟨by decide, fun _ => by decide⟩
    · rw [hletter]
      exact ⟨by decide, fun _ => by decide⟩

/-- **A magnitude that is spelled is read**, as it is rounded. -/
theorem magnitude?_text (negative : Bool) {p : Spelling} (hp : p.Proper) :
    magnitude? negative p.text = some (p.rounded negative) := by
  have hdigits : ¬(p.whole.isEmpty && (p.fraction.getD []).isEmpty) = true := by
    rw [Bool.and_eq_true, List.isEmpty_iff, List.isEmpty_iff]
    rintro ⟨hwhole, hfraction⟩
    refine hp.digits.ne_nil ?_
    rw [Spelling.digits, hwhole, hfraction]
    rfl
  rw [Spelling.text, magnitude?_parts negative (Spelling.isDigit_of_mem_whole hp)
    (Spelling.isDigit_of_mem_fraction hp) (ends_text hp), if_neg hdigits,
    behind?_text hp.exponent]
  rfl

/-- Nothing else is read as a magnitude. -/
theorem exists_of_magnitude? {negative : Bool} {cs : List Char} {x : Binary64}
    (h : magnitude? negative cs = some x) :
    ∃ p : Spelling, p.Proper ∧ p.text = cs ∧ x = p.rounded negative := by
  obtain ⟨whole, fraction, rest, rfl, hwhole, hfraction, hrest⟩ := exists_parts cs
  have hparts := h
  rw [magnitude?_parts negative hwhole hfraction hrest] at hparts
  by_cases hdigits : (whole.isEmpty && (fraction.getD []).isEmpty) = true
  · rw [if_pos hdigits] at hparts
    cases hparts
  · rw [if_neg hdigits] at hparts
    obtain ⟨e, he, -⟩ := Option.map_eq_some_iff.mp hparts
    obtain ⟨exponent, hexponent, rfl⟩ := exists_of_behind? he
    have hp : Spelling.Proper ⟨whole, fraction, exponent⟩ := by
      refine ⟨⟨fun hnil => hdigits ?_, fun c hc => ?_⟩, hexponent⟩
      · obtain ⟨hnone, hempty⟩ := List.append_eq_nil_iff.mp hnil
        exact Bool.and_eq_true_iff.mpr ⟨List.isEmpty_iff.mpr hnone, List.isEmpty_iff.mpr hempty⟩
      · rcases List.mem_append.mp hc with hc | hc
        · exact hwhole c hc
        · exact hfraction c hc
    have hread := magnitude?_text negative hp
    rw [Spelling.text, h] at hread
    exact ⟨_, hp, rfl, Option.some.inj hread⟩

/-! ### Words -/

/-- A name of infinity or NaN, in any case of its letters. -/
def IsWord (cs : List Char) : Prop :=
  Text.lowerChars cs = "inf".toList ∨ Text.lowerChars cs = "infinity".toList ∨
    Text.lowerChars cs = "nan".toList

instance (cs : List Char) : Decidable (IsWord cs) := inferInstanceAs (Decidable (_ ∨ _))

/-- A letter is in front of a word. -/
theorem head?_word {cs : List Char} (h : IsWord cs) {c : Char} (hc : cs.head? = some c) :
    Text.lowerChar c = 'i' ∨ Text.lowerChar c = 'n' := by
  have hhead : (Text.lowerChars cs).head? = some (Text.lowerChar c) := by
    rw [Text.lowerChars, List.head?_map, hc]
    rfl
  rcases h with h | h | h
  · rw [h] at hhead
    exact .inl (Option.some.inj hhead).symm
  · rw [h] at hhead
    exact .inl (Option.some.inj hhead).symm
  · rw [h] at hhead
    exact .inr (Option.some.inj hhead).symm

theorem lowerChar_of_isDigit {c : Char} (h : isDigit c = true) : Text.lowerChar c = c := by
  refine if_neg fun hletter => ?_
  have hlow := UInt32.le_iff_toNat_le.mp (Char.le_def.mp hletter.1)
  have hletter : 'A'.val.toNat = 65 := rfl
  have hhigh := (toNat_of_isDigit h).2
  rw [← Char.toNat_val] at hhigh
  omega

theorem noSign_word {cs : List Char} (h : IsWord cs) : NoSign cs := by
  intro c hc
  have hletter := head?_word h hc
  constructor
  · rintro rfl
    exact absurd hletter (by decide)
  · rintro rfl
    exact absurd hletter (by decide)

theorem not_isWord_text {p : Spelling} (hp : p.Proper) : ¬IsWord p.text := by
  intro hword
  cases htext : p.text with
  | nil =>
    rw [htext] at hword
    exact absurd hword (by decide)
  | cons c cs =>
    have hhead : p.text.head? = some c := by rw [htext]; rfl
    have hletter := head?_word hword hhead
    rcases Spelling.head?_text hp hhead with hdigit | rfl
    · rw [lowerChar_of_isDigit hdigit] at hletter
      rcases hletter with rfl | rfl
      · exact absurd hdigit (by decide)
      · exact absurd hdigit (by decide)
    · exact absurd hletter (by decide)

/-! ### Reading doubles -/

/-- What a text is read as behind its sign. -/
def unsignedFloat? (negative : Bool) (cs : List Char) : Option Binary64 :=
  let word := String.ofList (Text.lowerChars cs)
  if word == "inf" || word == "infinity" then
    some (Binary64.ofRatio negative (Nat.pow 2 1100) 1)
  else if word == "nan" then some ⟨0x7FF8000000000000⟩
  else magnitude? negative cs

theorem float?_eq (s : String) :
    float? s = unsignedFloat? (cutSign s.toList).1 (cutSign s.toList).2 := by
  unfold float?
  split
  rename_i negative cs heq
  have hcut : cutSign s.toList = (negative, cs) := (cutSign_eq s.toList).trans heq
  rw [hcut]
  rfl

/-- A word is read, but not as a finite double. -/
theorem unsignedFloat?_word (negative : Bool) {cs : List Char} (h : IsWord cs) :
    ∃ x, unsignedFloat? negative cs = some x ∧ x.isFinite = false := by
  unfold unsignedFloat?
  generalize hk : 1100 = k
  dsimp only
  rcases h with h | h | h
  · rw [h, if_pos (by decide)]
    exact ⟨_, rfl, isFinite_huge negative (by omega)⟩
  · rw [h, if_pos (by decide)]
    exact ⟨_, rfl, isFinite_huge negative (by omega)⟩
  · rw [h, if_neg (by decide), if_pos (by decide)]
    exact ⟨_, rfl, by decide⟩

theorem unsignedFloat?_of_not_word (negative : Bool) {cs : List Char} (h : ¬IsWord cs) :
    unsignedFloat? negative cs = magnitude? negative cs := by
  have hne (w : String) (hw : Text.lowerChars cs ≠ w.toList) :
      (String.ofList (Text.lowerChars cs) == w) = false := by
    rw [beq_eq_false_iff_ne]
    rintro rfl
    exact hw (String.toList_ofList).symm
  unfold unsignedFloat?
  generalize 1100 = k
  dsimp only
  rw [hne "inf" fun heq => h (.inl heq), hne "infinity" fun heq => h (.inr (.inl heq)),
    hne "nan" fun heq => h (.inr (.inr heq))]
  rfl

/-- **Text that spells a double**: a word or a magnitude behind an optional sign. -/
def Spelled (s : String) : Prop :=
  ∃ (sign : Option Bool) (body : List Char), s.toList = signText sign ++ body ∧
    (IsWord body ∨ ∃ p : Spelling, p.Proper ∧ p.text = body)

/-- **Text that spells a finite double**: a magnitude behind an optional sign, and below the
halfway point behind the largest double. -/
def SpelledFinite (s : String) : Prop :=
  ∃ (sign : Option Bool) (p : Spelling), s.toList = signText sign ++ p.text ∧ p.Proper ∧ p.Small

/-- Behind its sign, spelled text is what it spells. -/
theorem cutSign_of_spelled {s : String} {sign : Option Bool} {body : List Char}
    (hs : s.toList = signText sign ++ body)
    (hbody : IsWord body ∨ ∃ p : Spelling, p.Proper ∧ p.text = body) :
    cutSign s.toList = (sign == some true, body) := by
  rw [hs]
  refine cutSign_signText sign ?_
  rcases hbody with hword | ⟨p, hp, rfl⟩
  · exact noSign_word hword
  · exact Spelling.noSign_text hp

/-- **A text is read as a double exactly if it spells one.** -/
theorem exists_float?_iff {s : String} : (∃ x, float? s = some x) ↔ Spelled s := by
  rw [float?_eq]
  constructor
  · rintro ⟨x, hx⟩
    obtain ⟨sign, hs⟩ := exists_cutSign s.toList
    refine ⟨sign, (cutSign s.toList).2, hs, ?_⟩
    by_cases hword : IsWord (cutSign s.toList).2
    · exact .inl hword
    · rw [unsignedFloat?_of_not_word _ hword] at hx
      obtain ⟨p, hp, htext, -⟩ := exists_of_magnitude? hx
      exact .inr ⟨p, hp, htext⟩
  · rintro ⟨sign, body, hs, hbody⟩
    rw [cutSign_of_spelled hs hbody]
    rcases hbody with hword | ⟨p, hp, rfl⟩
    · obtain ⟨x, hx, -⟩ := unsignedFloat?_word (sign == some true) hword
      exact ⟨x, hx⟩
    · exact ⟨_, (unsignedFloat?_of_not_word _ (not_isWord_text hp)).trans (magnitude?_text _ hp)⟩

/-- **A text is read as a finite double exactly if it spells one.** -/
theorem isFinite_of_float? {s : String} {x : Binary64} (h : float? s = some x) :
    x.isFinite = true ↔ SpelledFinite s := by
  rw [float?_eq] at h
  constructor
  · intro hfinite
    by_cases hword : IsWord (cutSign s.toList).2
    · obtain ⟨y, hy, hinfinite⟩ := unsignedFloat?_word (cutSign s.toList).1 hword
      cases h.symm.trans hy
      exact absurd hfinite (by rw [hinfinite]; exact Bool.false_ne_true)
    · rw [unsignedFloat?_of_not_word _ hword] at h
      obtain ⟨p, hp, htext, rfl⟩ := exists_of_magnitude? h
      obtain ⟨sign, hs⟩ := exists_cutSign s.toList
      exact ⟨sign, p, by rw [htext]; exact hs, hp, (Spelling.isFinite_rounded _ hp).mp hfinite⟩
  · rintro ⟨sign, p, hs, hp, hsmall⟩
    rw [cutSign_of_spelled hs (.inr ⟨p, hp, rfl⟩)] at h
    cases h.symm.trans
      ((unsignedFloat?_of_not_word _ (not_isWord_text hp)).trans (magnitude?_text _ hp))
    exact (Spelling.isFinite_rounded _ hp).mpr hsmall

/-- Too many digits, a word and a text that is none: the first two are read, but as no finite
double. -/
example : ((float? "1e400").map Binary64.isFinite, (float? "-Infinity").map Binary64.isFinite,
    (float? "1.7976931348623157e308").map Binary64.isFinite, float? "1,5") =
      (some false, some false, some true, none) := by decide +kernel

/-! ### Reading counts -/

/-- **Text that spells a count**: digits behind an optional plus sign, for a number that a 64-bit
word holds. -/
def SpelledCount (s : String) (n : Nat) : Prop :=
  ∃ ds, (s.toList = ds ∨ s.toList = '+' :: ds) ∧ Digits ds ∧ n = natOfDigits ds ∧
    n < Nat.pow 2 64

theorem digits?_eq_some_iff {ds : List Char} {n : Nat} :
    digits? ds = some n ↔ Digits ds ∧ n = natOfDigits ds := by
  have hdigits : (!ds.isEmpty && ds.all isDigit) = true ↔ Digits ds := by
    rw [← digits_iff, ← Bool.not_eq_true', Bool.not_or, Bool.not_not]
  unfold digits?
  by_cases h : (!ds.isEmpty && ds.all isDigit) = true
  · rw [if_pos h, Option.some.injEq]
    exact ⟨fun heq => ⟨hdigits.mp h, heq.symm⟩, fun heq => heq.2.symm⟩
  · rw [if_neg h]
    constructor
    · rintro ⟨⟩
    · rintro ⟨hds, -⟩
      exact absurd (hdigits.mpr hds) h

/-- Digits that a 64-bit word holds are the number it keeps. -/
theorem word_eq_some_iff {ds : List Char} {n : Nat} :
    ((digits? ds).bind fun m =>
      if m < Nat.pow 2 64 then some (UInt64.ofNat m) else none).map (·.toNat) = some n ↔
        Digits ds ∧ n = natOfDigits ds ∧ n < Nat.pow 2 64 := by
  rw [Option.map_eq_some_iff]
  constructor
  · rintro ⟨word, hword, rfl⟩
    obtain ⟨m, hm, hword⟩ := Option.bind_eq_some_iff.mp hword
    by_cases hsmall : m < Nat.pow 2 64
    · rw [if_pos hsmall] at hword
      cases hword
      rw [UInt64.toNat_ofNat_of_lt' hsmall]
      obtain ⟨hds, hvalue⟩ := digits?_eq_some_iff.mp hm
      exact ⟨hds, hvalue, hsmall⟩
    · rw [if_neg hsmall] at hword
      cases hword
  · rintro ⟨hds, hvalue, hsmall⟩
    refine ⟨UInt64.ofNat n, ?_, UInt64.toNat_ofNat_of_lt' hsmall⟩
    rw [digits?_eq_some_iff.mpr ⟨hds, hvalue⟩, Option.bind_some, if_pos hsmall]

/-- **A text is read as a count exactly if it spells it.** -/
theorem unsigned?_eq_some_iff {s : String} {n : Nat} :
    (unsigned? s).map (·.toNat) = some n ↔ SpelledCount s n := by
  unfold unsigned?
  split
  · rename_i ds hs
    refine Iff.trans word_eq_some_iff ⟨fun h => ⟨ds, .inr hs, h⟩, ?_⟩
    rintro ⟨ds', hs' | hs', h⟩
    · -- a plus sign is no digit
      rw [hs] at hs'
      subst hs'
      exact absurd (h.1.isDigit '+' List.mem_cons_self) (by decide)
    · cases hs.symm.trans hs'
      exact h
  · rename_i hplus
    refine Iff.trans word_eq_some_iff ⟨fun h => ⟨s.toList, .inl rfl, h⟩, ?_⟩
    rintro ⟨ds, rfl | hs, h⟩
    · exact h
    · exact absurd hs (hplus ds)

end Relay.Decimal
