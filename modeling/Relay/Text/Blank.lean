/-
# Blank characters, trimming and letter case

Names and settings are compared after trimming, and header names without regard
to the case of their ASCII letters. A character is blank when it has the Unicode
property White_Space.

Key definitions: `isBlankChar`, `trim`, `isBlank`, `lower`, `foldName`.
Key theorems: `isBlank_iff_trim`, `dropEndWhile_append_cons`, `trimChars_of_not_blank`,
`trim_trim`.
-/

namespace Relay.Text

/-- The Unicode property White_Space. -/
def isBlankChar (c : Char) : Bool :=
  let n := c.toNat
  (9 ≤ n && n ≤ 13) || n == 0x20 || n == 0x85 || n == 0xA0 || n == 0x1680
    || (0x2000 ≤ n && n ≤ 0x200A) || n == 0x2028 || n == 0x2029 || n == 0x202F
    || n == 0x205F || n == 0x3000

/-- The characters without those at the end that satisfy `p`. -/
def dropEndWhile (p : Char → Bool) (cs : List Char) : List Char :=
  (cs.reverse.dropWhile p).reverse

/-- The characters between the first and the last that is not blank. -/
def trimChars (cs : List Char) : List Char :=
  dropEndWhile isBlankChar (cs.dropWhile isBlankChar)

/-- The text without blanks at either end. -/
def trim (s : String) : String := String.ofList (trimChars s.toList)

/-- No character, or blank ones only. -/
def isBlank (s : String) : Bool := s.toList.all isBlankChar

/-- Upper case ASCII letters become lower case; every other character stays. -/
def lowerChar (c : Char) : Char :=
  if 'A' ≤ c ∧ c ≤ 'Z' then Char.ofNat (c.toNat + 32) else c

def lowerChars (cs : List Char) : List Char := cs.map lowerChar

/-- ASCII letters in lower case, all else as it is. -/
def lower (s : String) : String := String.ofList (lowerChars s.toList)

/-- The form in which header and query names are compared. -/
def foldName (s : String) : String := lower (trim s)

theorem dropWhile_eq_nil_iff_all (p : Char → Bool) :
    ∀ cs : List Char, cs.dropWhile p = [] ↔ cs.all p = true
  | [] => by simp
  | c :: cs => by
    by_cases h : p c <;> simp [List.dropWhile, h, dropWhile_eq_nil_iff_all p cs]

theorem not_of_head?_dropWhile {p : Char → Bool} {cs : List Char} {c : Char}
    (h : (cs.dropWhile p).head? = some c) : p c = false := by
  have hnot := List.head?_dropWhile_not p cs
  rw [h] at hnot
  exact hnot

theorem dropWhile_of_head? {p : Char → Bool} {cs : List Char}
    (h : ∀ c, cs.head? = some c → p c = false) : cs.dropWhile p = cs := by
  cases cs with
  | nil => rfl
  | cons c cs => rw [List.dropWhile_cons, h c rfl, if_neg Bool.false_ne_true]

/-- What is dropped at the end satisfies `p`. -/
theorem exists_dropEndWhile_append (p : Char → Bool) (cs : List Char) :
    ∃ dropped, dropEndWhile p cs ++ dropped = cs ∧ ∀ c ∈ dropped, p c = true := by
  refine ⟨(cs.reverse.takeWhile p).reverse, ?_, fun c hc => ?_⟩
  · rw [dropEndWhile, ← List.reverse_append, List.takeWhile_append_dropWhile, List.reverse_reverse]
  · exact List.all_eq_true.mp List.all_takeWhile c (List.mem_reverse.mp hc)

/-- Nothing in front of a character that stays is dropped. -/
theorem dropEndWhile_append_cons {p : Char → Bool} {c : Char} (hc : p c = false)
    (cs ds : List Char) :
    dropEndWhile p (cs ++ c :: ds) = cs ++ c :: dropEndWhile p ds := by
  have hreverse : (cs ++ c :: ds).reverse = ds.reverse ++ c :: cs.reverse := by simp
  have hstays : (c :: cs.reverse).dropWhile p = c :: cs.reverse := by
    rw [List.dropWhile_cons, hc, if_neg Bool.false_ne_true]
  unfold dropEndWhile
  rw [hreverse, List.dropWhile_append]
  split
  · rename_i hempty
    rw [hstays, List.isEmpty_iff.mp hempty]
    simp
  · simp

/-- Between characters that are not blank there is nothing to trim. -/
theorem trimChars_of_ends {cs : List Char} (hfirst : ∀ c, cs.head? = some c → isBlankChar c = false)
    (hlast : ∀ c, cs.getLast? = some c → isBlankChar c = false) : trimChars cs = cs := by
  unfold trimChars dropEndWhile
  rw [dropWhile_of_head? hfirst, dropWhile_of_head?, List.reverse_reverse]
  rw [List.head?_reverse]
  exact hlast

/-- Where no character is blank there is nothing to trim. -/
theorem trimChars_of_not_blank {cs : List Char} (h : ∀ c ∈ cs, isBlankChar c = false) :
    trimChars cs = cs :=
  trimChars_of_ends (fun c hc => h c (List.mem_of_head? hc)) fun c hc =>
    h c (List.mem_of_getLast? hc)

/-- Trimming leaves no blank at the end. -/
theorem not_blank_of_getLast?_trimChars {cs : List Char} {c : Char}
    (h : (trimChars cs).getLast? = some c) : isBlankChar c = false := by
  rw [trimChars, dropEndWhile, List.getLast?_reverse] at h
  exact not_of_head?_dropWhile h

/-- Nor does it leave one at the beginning. -/
theorem not_blank_of_head?_trimChars {cs : List Char} {c : Char}
    (h : (trimChars cs).head? = some c) : isBlankChar c = false := by
  rw [trimChars, dropEndWhile, List.head?_reverse] at h
  obtain ⟨cut, hcut⟩ := List.dropWhile_suffix (l := (cs.dropWhile isBlankChar).reverse) isBlankChar
  have hlast := congrArg List.getLast? hcut
  rw [List.getLast?_append, h, List.getLast?_reverse] at hlast
  exact not_of_head?_dropWhile hlast.symm

/-- What is trimmed stays as it is. -/
theorem trim_trim (s : String) : trim (trim s) = trim s := by
  rw [trim, trim, String.toList_ofList, trimChars_of_ends
    (fun _ h => not_blank_of_head?_trimChars h) fun _ h => not_blank_of_getLast?_trimChars h]

/-- Names compare the same before trimming and after. -/
theorem foldName_trim (s : String) : foldName (trim s) = foldName s := by
  rw [foldName, trim_trim, foldName]

/-- A text is blank exactly when nothing is left of it after trimming. -/
theorem isBlank_iff_trim (s : String) : isBlank s = true ↔ trim s = "" := by
  have key : trimChars s.toList = [] ↔ s.toList.all isBlankChar = true := by
    unfold trimChars dropEndWhile
    rw [List.reverse_eq_nil_iff, dropWhile_eq_nil_iff_all, List.all_reverse]
    constructor
    · intro h
      rw [← dropWhile_eq_nil_iff_all]
      cases hd : s.toList.dropWhile isBlankChar with
      | nil => rfl
      | cons c cs =>
        rw [hd] at h
        have hc : isBlankChar c = true := by
          simp only [List.all_cons, Bool.and_eq_true] at h
          exact h.1
        have hn := List.head_dropWhile_not (p := isBlankChar) (l := s.toList) (by rw [hd]; simp)
        simp [hd, hc] at hn
    · intro h
      rw [(dropWhile_eq_nil_iff_all _ _).2 h, List.all_nil]
  unfold isBlank trim
  rw [← key]
  constructor
  · intro h; rw [h]
  · intro h
    have := congrArg String.toList h
    simpa using this

end Relay.Text
