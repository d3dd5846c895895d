/-
# JSON that is read back

What is written of a value is read entry by entry in the order in which it was written, and all
of it is read: strings as themselves, numbers as their own texts are read, and an array or object
that is nested too deep as something that no value can hold. No more steps are taken than the
text has characters. So an ordered value is read back from its text exactly if it is nested at
most so deep and each of its numbers is read back by itself; whole numbers are.

Key definitions: `Json.asRead`, `Json.fits`.
Key theorems: `string?_quoted`, `value?_printChars`, `document?_print_eq`, `document?_print`,
`parse?_print_iff`.
-/
import Relay.Proofs.Ordering
import Relay.Proofs.Shortest

namespace Relay.Json

open Read

/-! ### Strings -/

theorem hex4?_hexDigit : ∀ n < 32,
    hex4? '0' '0' (hexDigit (n / 16)) (hexDigit (n % 16)) = some n := by decide

theorem ofUnit_toNat {c : Char} (h : c.toNat < 32) : Glyph.ofUnit c.toNat = .char c := by
  unfold Glyph.ofUnit
  rw [if_neg (by simp; omega), if_neg (by simp; omega), Char.ofNat_toNat]

/-- A character that is not escaped is read as itself. -/
theorem glyphs?_cons {c : Char} (hquote : c ≠ '"') (hback : c ≠ '\\') (hlow : ¬c.toNat < 32)
    (cs : List Char) :
    glyphs? (c :: cs) = (glyphs? cs).map fun (gs, rest) => (.char c :: gs, rest) := by
  rw [glyphs?]
  · rw [if_neg (by simp [hback, hlow])]
    cases glyphs? cs <;> rfl
  all_goals simp_all

theorem glyphs?_escapeChar (c : Char) (cs : List Char) :
    glyphs? (escapeChar c ++ cs) = (glyphs? cs).map fun (gs, rest) => (.char c :: gs, rest) := by
  fun_cases escapeChar c
  case case8 hlow =>
    show glyphs? ('\\' :: 'u' :: '0' :: '0' :: hexDigit (c.toNat / 16) ::
      hexDigit (c.toNat % 16) :: cs) = _
    rw [glyphs?, hex4?_hexDigit c.toNat hlow]
    show (glyphs? cs).bind (fun p => some (Glyph.ofUnit c.toNat :: p.1, p.2)) = _
    rw [ofUnit_toNat hlow]
    cases glyphs? cs <;> rfl
  case case9 hquote hback _ _ _ _ _ hlow => exact glyphs?_cons hquote hback hlow cs
  -- the escapes of one letter
  all_goals
    subst_vars
    show glyphs? ('\\' :: _ :: cs) = _
    rw [glyphs?]
    · cases glyphs? cs <;> rfl
    · simp

theorem glyphs?_quoted : ∀ cs rest : List Char,
    glyphs? (cs.flatMap escapeChar ++ '"' :: rest) = some (cs.map Glyph.char, rest)
  | [], rest => by rw [List.flatMap_nil, List.nil_append, glyphs?]; rfl
  | c :: cs, rest => by
    rw [List.flatMap_cons, List.append_assoc, glyphs?_escapeChar, glyphs?_quoted cs rest]
    rfl

theorem textOf?_char : ∀ cs : List Char, textOf? (cs.map Glyph.char) = some cs
  | [] => rfl
  | c :: cs => by
    rw [List.map_cons, textOf?, textOf?_char cs]
    rfl

/-- Behind its opening quote, a quoted text is read as the text. -/
theorem string?_quoted (s : String) (rest : List Char) :
    string? (s.toList.flatMap escapeChar ++ '"' :: rest) = some (some s, rest) := by
  unfold string?
  rw [glyphs?_quoted]
  show some ((textOf? (s.toList.map Glyph.char)).map String.ofList, rest) = _
  rw [textOf?_char, Option.map_some, String.ofList_toList]

/-! ### Numbers -/

variable {fuel room : Nat} {rest : List Char}

theorem skip_cons {c : Char} (h : isBlank c = false) (cs : List Char) : skip (c :: cs) = c :: cs := by
  unfold skip
  rw [List.dropWhile_cons, h, if_neg Bool.false_ne_true]

/-- No character but a sign or a digit leads a numeral. -/
theorem ne_of_leads {c d : Char} (hc : c = '-' ∨ Decimal.isDigit c = true)
    (hd : d ≠ '-' ∧ Decimal.isDigit d = false) : c ≠ d := by
  rintro rfl
  rcases hc with hc | hc
  · exact hd.1 hc
  · exact Bool.false_ne_true (hd.2.symm.trans hc)

theorem isBlank_of_leads {c : Char} (hc : c = '-' ∨ Decimal.isDigit c = true) :
    isBlank c = false := by
  simp [isBlank, ne_of_leads (d := ' ') hc (by decide), ne_of_leads (d := '\t') hc (by decide),
    ne_of_leads (d := '\n') hc (by decide), ne_of_leads (d := '\r') hc (by decide)]

theorem value?_numeral {m : Numeral} (hm : m.Proper) (hrest : Follows rest) :
    Read.value? (fuel + 1) room (m.text ++ rest) =
      some (m.value?.elim .unreadable .num, rest) := by
  have hread := numeral?_text hm hrest
  obtain ⟨c, cs, htext, hc⟩ := exists_text hm
  rw [htext, List.cons_append] at hread ⊢
  have hne (d : Char) (hd : d ≠ '-' ∧ Decimal.isDigit d = false) : ¬c = d := ne_of_leads hc hd
  rw [Read.value?, skip_cons (isBlank_of_leads hc)]
  dsimp only
  rw [if_neg (hne _ (by decide)), if_neg (hne _ (by decide)), if_neg (hne _ (by decide)),
    if_neg (hne _ (by decide)), if_neg (hne _ (by decide)), if_neg (hne _ (by decide)), hread]
  rfl

theorem value?_numeral_alone {m : Numeral} (hm : m.Proper) :
    Read.value? (fuel + 1) room m.text = some (m.value?.elim .unreadable .num, []) := by
  rw [← List.append_nil m.text]
  exact value?_numeral hm follows_nil

/-- A number is written as a numeral, unless it is none. -/
theorem printNumber_cases (n : Number) :
    printNumber n = "null".toList ∨ ∃ m : Numeral, m.Proper ∧ printNumber n = m.text := by
  cases n with
  | int n => exact .inr ⟨_, Numeral.proper_ofInt n, (Numeral.text_ofInt n).symm⟩
  | real x =>
    rw [printNumber]
    cases hrender : Decimal.Shortest.render floatLayout x with
    | none => exact .inl rfl
    | some s => exact .inr (Decimal.Shortest.exists_numeral_render hrender)

/-- What the text of a number is read as when it stands by itself. -/
def Number.asRead (n : Number) : Draft :=
  (Read.value? 1 0 (printNumber n)).elim .unreadable Prod.fst

/-- **A number is read in a document as it is read by itself.** -/
theorem value?_printNumber (n : Number) (hrest : Follows rest) :
    Read.value? (fuel + 1) room (printNumber n ++ rest) = some (n.asRead, rest) := by
  unfold Number.asRead
  rcases printNumber_cases n with hn | ⟨m, hm, hn⟩
  · rw [hn]
    rfl
  · rw [hn, value?_numeral_alone hm, value?_numeral hm hrest]
    rfl

/-! ### Values as they are read -/

mutual

/-- What a value is read as where so many arrays and objects may be nested. -/
def asRead (room : Nat) : Json → Draft
  | .null => .null
  | .bool b => .bool b
  | .num n => n.asRead
  | .str s => .str s
  | .arr items => if room = 0 then .unreadable else .arr (itemsAsRead (room - 1) items)
  | .obj fields => if room = 0 then .unreadable else .obj (fieldsAsRead (room - 1) fields)

def itemsAsRead (room : Nat) : List Json → List Draft
  | [] => []
  | x :: xs => asRead room x :: itemsAsRead room xs

def fieldsAsRead (room : Nat) : List (String × Json) → List (String × Draft)
  | [] => []
  | (k, x) :: xs => (k, asRead room x) :: fieldsAsRead room xs

end

theorem itemsAsRead_eq_map (room : Nat) (items : List Json) :
    itemsAsRead room items = items.map (asRead room) := by
  induction items with
  | nil => rfl
  | cons x xs ih => rw [itemsAsRead, ih, List.map_cons]

theorem fieldsAsRead_eq_map (room : Nat) (fields : List (String × Json)) :
    fieldsAsRead room fields = fields.map fun field => (field.1, field.2.asRead room) := by
  induction fields with
  | nil => rfl
  | cons field fields ih => rw [fieldsAsRead, ih, List.map_cons]

/-- A value that is written begins with neither a blank nor the end of an array. -/
theorem exists_printChars (j : Json) :
    ∃ c cs, printChars j = c :: cs ∧ isBlank c = false ∧ c ≠ ']' := by
  cases j with
  | null => exact ⟨_, _, rfl, by decide, by decide⟩
  | bool b => cases b <;> exact ⟨_, _, rfl, by decide, by decide⟩
  | num n =>
    rcases printNumber_cases n with hn | ⟨m, hm, hn⟩
    · exact ⟨_, _, hn, by decide, by decide⟩
    · obtain ⟨c, cs, htext, hc⟩ := exists_text hm
      exact ⟨c, cs, hn.trans htext, isBlank_of_leads hc, ne_of_leads hc (by decide)⟩
  | str s => exact ⟨_, _, rfl, by decide, by decide⟩
  | arr items => cases items <;> exact ⟨_, _, rfl, by decide, by decide⟩
  | obj fields => cases fields <;> exact ⟨_, _, rfl, by decide, by decide⟩

/-! ### What the reader does with the first character -/

theorem value?_quote (s : String) (rest : List Char) :
    Read.value? (fuel + 1) room (quote s ++ rest) = some (.str s, rest) := by
  unfold quote
  rw [List.cons_append, List.cons_append, List.append_assoc]
  show (string? (s.toList.flatMap escapeChar ++ '"' :: rest)).bind _ = _
  rw [string?_quoted]
  rfl

/-- An array that does not end at once has items. -/
theorem value?_array {c : Char} (hblank : isBlank c = false) (hend : c ≠ ']') (cs : List Char) :
    Read.value? (fuel + 1) room ('[' :: c :: cs) =
      (Read.items? fuel (room - 1) (c :: cs)).map fun (items, rest) =>
        (if room = 0 then .unreadable else .arr items, rest) := by
  rw [Read.value?, skip_cons (by decide)]
  dsimp only
  rw [if_neg (by decide), if_neg (by decide), if_neg (by decide), if_neg (by decide), if_pos rfl,
    skip_cons hblank cs]
  split
  · rename_i heq
    exact absurd (List.cons.inj heq).1 hend
  · cases Read.items? fuel (room - 1) (c :: cs) <;> rfl

theorem value?_object (cs : List Char) :
    Read.value? (fuel + 1) room ('{' :: '"' :: cs) =
      (Read.fields? fuel (room - 1) ('"' :: cs)).map fun (fields, rest) =>
        (if room = 0 then .unreadable else fields.elim .unreadable .obj, rest) := by
  show (Read.fields? fuel (room - 1) ('"' :: cs)).bind (fun (fields, r) =>
    some (if room = 0 then Draft.unreadable else fields.elim .unreadable .obj, r)) = _
  cases Read.fields? fuel (room - 1) ('"' :: cs) <;> rfl

/-- The items after the first. -/
theorem items?_comma {cs cs' : List Char} {d : Draft}
    (h : Read.value? fuel room cs = some (d, ',' :: cs')) :
    Read.items? (fuel + 1) room cs =
      (Read.items? fuel room cs').map fun (ds, rest) => (d :: ds, rest) := by
  rw [Read.items?, h]
  show (Read.items? fuel room cs').bind (fun (ds, r) => some (d :: ds, r)) = _
  cases Read.items? fuel room cs' <;> rfl

theorem items?_end {cs : List Char} {d : Draft}
    (h : Read.value? fuel room cs = some (d, ']' :: rest)) :
    Read.items? (fuel + 1) room cs = some ([d], rest) := by
  rw [Read.items?, h]
  rfl

theorem fields?_comma {cs cs' : List Char} {d : Draft} (name : String)
    (h : Read.value? fuel room cs = some (d, ',' :: cs')) :
    Read.fields? (fuel + 1) room (quote name ++ ':' :: cs) =
      (Read.fields? fuel room cs').map fun (ds, rest) => (ds.map ((name, d) :: ·), rest) := by
  unfold quote
  rw [List.cons_append, List.cons_append, List.append_assoc]
  show (string? (name.toList.flatMap escapeChar ++ '"' :: ':' :: cs)).bind _ = _
  rw [string?_quoted]
  show (Read.value? fuel room cs).bind _ = _
  rw [h]
  show (Read.fields? fuel room cs').bind _ = _
  cases Read.fields? fuel room cs' <;> rfl

theorem fields?_end {cs : List Char} {d : Draft} (name : String)
    (h : Read.value? fuel room cs = some (d, '}' :: rest)) :
    Read.fields? (fuel + 1) room (quote name ++ ':' :: cs) = some (some [(name, d)], rest) := by
  unfold quote
  rw [List.cons_append, List.cons_append, List.append_assoc]
  show (string? (name.toList.flatMap escapeChar ++ '"' :: ':' :: cs)).bind _ = _
  rw [string?_quoted]
  show (Read.value? fuel room cs).bind _ = _
  rw [h]
  rfl

/-! ### Values -/

theorem printItems_ne_nil (xs : List Json) : printItems xs ≠ [] := by
  cases xs <;> exact List.cons_ne_nil _ _

theorem printFields_ne_nil (fields : List (String × Json)) : printFields fields ≠ [] := by
  cases fields <;> exact List.cons_ne_nil _ _

mutual

/-- **What is written of a value is read**, up to where it ends. There must be as many steps as
characters. -/
theorem value?_printChars : ∀ (j : Json) (fuel room : Nat) (rest : List Char),
    Follows rest → (printChars j).length ≤ fuel →
      Read.value? fuel room (printChars j ++ rest) = some (j.asRead room, rest)
  | j, 0, room, rest, _, hfuel => by
    obtain ⟨c, cs, hj, -⟩ := exists_printChars j
    rw [hj] at hfuel
    cases hfuel
  | .null, fuel + 1, room, rest, _, _ => rfl
  | .bool true, fuel + 1, room, rest, _, _ => rfl
  | .bool false, fuel + 1, room, rest, _, _ => rfl
  | .num n, fuel + 1, room, rest, hrest, _ => value?_printNumber n hrest
  | .str s, fuel + 1, room, rest, _, _ => value?_quote s rest
  | .arr [], fuel + 1, room, rest, _, _ => rfl
  | .arr (x :: xs), fuel + 1, room, rest, _, hfuel => by
    have hread := items?_printItems x xs fuel (room - 1) rest (Nat.le_of_succ_le_succ hfuel)
    obtain ⟨c, cs, hx, hblank, hend⟩ := exists_printChars x
    show Read.value? (fuel + 1) room ('[' :: (printChars x ++ printItems xs ++ rest)) = _
    rw [hx, List.cons_append, List.cons_append] at hread ⊢
    rw [value?_array hblank hend, hread]
    rfl
  | .obj [], fuel + 1, room, rest, _, _ => rfl
  | .obj ((k, x) :: fields), fuel + 1, room, rest, _, hfuel => by
    have hread := fields?_printFields k x fields fuel (room - 1) rest
      (Nat.le_of_succ_le_succ hfuel)
    show Read.value? (fuel + 1) room
      ('{' :: (quote k ++ ':' :: printChars x ++ printFields fields ++ rest)) = _
    have hquote : quote k ++ ':' :: printChars x ++ printFields fields ++ rest = '"' :: _ := rfl
    rw [hquote] at hread ⊢
    rw [value?_object, hread]
    rfl

theorem items?_printItems : ∀ (x : Json) (xs : List Json) (fuel room : Nat) (rest : List Char),
    (printChars x ++ printItems xs).length ≤ fuel →
      Read.items? fuel room (printChars x ++ printItems xs ++ rest) =
        some (x.asRead room :: itemsAsRead room xs, rest)
  | x, xs, 0, room, rest, hfuel => by
    have hnil := List.length_eq_zero_iff.mp (Nat.le_zero.mp hfuel)
    exact absurd (List.append_eq_nil_iff.mp hnil).2 (printItems_ne_nil xs)
  | x, [], fuel + 1, room, rest, hfuel => by
    rw [List.length_append] at hfuel
    have hread := value?_printChars x fuel room (']' :: rest) (follows_cons (by decide) rest)
      (Nat.le_of_succ_le_succ hfuel)
    rw [List.append_assoc]
    exact items?_end hread
  | x, y :: ys, fuel + 1, room, rest, hfuel => by
    rw [List.length_append] at hfuel
    have hlength : (printChars x).length + (printChars y ++ printItems ys).length ≤ fuel :=
      Nat.le_of_succ_le_succ hfuel
    have hread := value?_printChars x fuel room (',' :: (printChars y ++ printItems ys ++ rest))
      (follows_cons (by decide) _) (by omega)
    have hread' := items?_printItems y ys fuel room rest (by omega)
    rw [List.append_assoc]
    exact (items?_comma hread).trans (by rw [hread']; rfl)

theorem fields?_printFields : ∀ (k : String) (x : Json) (fields : List (String × Json))
    (fuel room : Nat) (rest : List Char),
      (quote k ++ ':' :: printChars x ++ printFields fields).length ≤ fuel →
      Read.fields? fuel room (quote k ++ ':' :: printChars x ++ printFields fields ++ rest) =
        some (some ((k, x.asRead room) :: fieldsAsRead room fields), rest)
  | k, x, fields, 0, room, rest, hfuel => by
    have hnil := List.length_eq_zero_iff.mp (Nat.le_zero.mp hfuel)
    exact absurd (List.append_eq_nil_iff.mp hnil).2 (printFields_ne_nil fields)
  | k, x, [], fuel + 1, room, rest, hfuel => by
    simp only [List.length_append, List.length_cons] at hfuel
    have hread := value?_printChars x fuel room ('}' :: rest) (follows_cons (by decide) rest) (by omega)
    rw [List.append_assoc, List.append_assoc, List.cons_append]
    exact fields?_end k hread
  | k, x, (l, y) :: fields, fuel + 1, room, rest, hfuel => by
    rw [List.length_append] at hfuel
    have hlength : (quote k ++ ':' :: printChars x).length +
        (quote l ++ ':' :: printChars y ++ printFields fields).length ≤ fuel :=
      Nat.le_of_succ_le_succ hfuel
    rw [List.length_append, List.length_cons] at hlength
    have hread := value?_printChars x fuel room
      (',' :: (quote l ++ ':' :: printChars y ++ printFields fields ++ rest)) (follows_cons (by decide) _)
      (by omega)
    have hread' := fields?_printFields l y fields fuel room rest (by omega)
    rw [List.append_assoc, List.append_assoc, List.cons_append]
    exact (fields?_comma k hread).trans (by rw [hread']; rfl)

end

/-- **Any text that was written is a document.** -/
theorem document?_print_eq (j : Json) : Read.document? j.print = some (j.asRead maxDepth) := by
  have hread := value?_printChars j (2 * (printChars j).length + 2) maxDepth [] follows_nil
    (by omega)
  rw [List.append_nil] at hread
  unfold Read.document? print
  rw [String.toList_ofList]
  dsimp only
  rw [hread]
  rfl

/-! ### Values that are read back -/

/-- The number is read back from its own text. -/
def Number.readsBack (n : Number) : Bool := decide (parse? (Json.num n).print = some (.num n))

/-- What has a value that is no array and no object is the document of this value. -/
theorem eq_toDraft_of_value? {d : Draft} {j : Json} (h : d.value? = some j)
    (harr : ∀ items, j ≠ .arr items) (hobj : ∀ fields, j ≠ .obj fields) : d = j.toDraft := by
  cases d with
  | null | bool | num | str =>
    cases h
    rfl
  | unreadable => cases h
  | arr items =>
    obtain ⟨values, -, rfl⟩ := Option.map_eq_some_iff.mp h
    exact absurd rfl (harr values)
  | obj fields =>
    obtain ⟨pairs, -, rfl⟩ := Option.map_eq_some_iff.mp h
    exact absurd rfl (hobj _)

theorem eq_num_of_value? {d : Draft} {n : Number} (h : d.value? = some (.num n)) : d = .num n :=
  eq_toDraft_of_value? h (fun _ heq => nomatch heq) fun _ heq => nomatch heq

theorem Number.readsBack_iff {n : Number} : n.readsBack = true ↔ n.asRead = .num n := by
  have hparse : parse? (Json.num n).print = n.asRead.value? := by
    rw [parse?, document?_print_eq]
    rfl
  rw [readsBack, decide_eq_true_iff, hparse]
  exact ⟨eq_num_of_value?, fun h => by rw [h]; rfl⟩

/-- A half is read back, but not every double is: the stepwise reading may end one place beside
the double whose shortest text it reads. -/
example : (Number.real ⟨0x3FE0000000000000⟩).readsBack = true ∧
    (Number.real ⟨0x424EBD117AA3D222⟩).readsBack = false := by decide +kernel

/-- **A whole number that a 64-bit word holds is read back.** -/
theorem Number.readsBack_int {n : Int} (hlow : -(Int.pow 2 63) ≤ n) (hhigh : n < Int.pow 2 64) :
    (Number.int n).readsBack = true := by
  rw [readsBack_iff, asRead, ← Numeral.text_ofInt, value?_numeral_alone (Numeral.proper_ofInt n),
    Numeral.value?_ofInt hlow hhigh]
  rfl

mutual

/-- Every number in the value is read back, and arrays and objects are nested at most so deep. -/
def fits (room : Nat) : Json → Bool
  | .num n => n.readsBack
  | .arr items => decide (0 < room) && itemsFit (room - 1) items
  | .obj fields => decide (0 < room) && fieldsFit (room - 1) fields
  | _ => true

def itemsFit (room : Nat) : List Json → Bool
  | [] => true
  | x :: xs => fits room x && itemsFit room xs

def fieldsFit (room : Nat) : List (String × Json) → Bool
  | [] => true
  | (_, x) :: xs => fits room x && fieldsFit room xs

end

mutual

/-- What fits is read as it is. -/
theorem asRead_of_fits : ∀ (j : Json) {room : Nat}, j.fits room = true → j.asRead room = j.toDraft
  | .null, _, _ => rfl
  | .bool _, _, _ => rfl
  | .num _, _, h => Number.readsBack_iff.mp h
  | .str _, _, _ => rfl
  | .arr items, room, h => by
    rw [fits, Bool.and_eq_true, decide_eq_true_iff] at h
    rw [asRead, if_neg (Nat.ne_of_gt h.1), itemsAsRead_of_fit items h.2, toDraft]
  | .obj fields, room, h => by
    rw [fits, Bool.and_eq_true, decide_eq_true_iff] at h
    rw [asRead, if_neg (Nat.ne_of_gt h.1), fieldsAsRead_of_fit fields h.2, toDraft]

theorem itemsAsRead_of_fit : ∀ (items : List Json) {room : Nat}, itemsFit room items = true →
    itemsAsRead room items = itemDrafts items
  | [], _, _ => rfl
  | x :: xs, room, h => by
    rw [itemsFit, Bool.and_eq_true] at h
    rw [itemsAsRead, asRead_of_fits x h.1, itemsAsRead_of_fit xs h.2, itemDrafts]

theorem fieldsAsRead_of_fit : ∀ (fields : List (String × Json)) {room : Nat},
    fieldsFit room fields = true → fieldsAsRead room fields = fieldDrafts fields
  | [], _, _ => rfl
  | (k, x) :: xs, room, h => by
    rw [fieldsFit, Bool.and_eq_true] at h
    rw [fieldsAsRead, asRead_of_fits x h.1, fieldsAsRead_of_fit xs h.2, fieldDrafts]

end

/-- **A text that was written is read back.** -/
theorem document?_print {j : Json} (h : j.fits maxDepth = true) :
    Read.document? j.print = some j.toDraft := by
  rw [document?_print_eq, asRead_of_fits j h]

/-- Entries keep their names when they are read. -/
theorem names_of_fieldsAsRead : ∀ (fields : List (String × Json)) {room : Nat}
    {pairs : List (String × Json)}, Draft.fieldValues? (fieldsAsRead room fields) = some pairs →
      pairs.map Prod.fst = fields.map Prod.fst
  | [], _, _, h => by
    cases h
    rfl
  | (k, x) :: fields, room, _, h => by
    obtain ⟨y, -, h⟩ := Option.bind_eq_some_iff.mp h
    obtain ⟨ys, hys, h⟩ := Option.bind_eq_some_iff.mp h
    cases h
    rw [List.map_cons, List.map_cons, names_of_fieldsAsRead fields hys]

mutual

/-- A value that is read as itself fits. -/
theorem fits_of_asRead : ∀ (j : Json) {room : Nat}, j.ordered = true →
    (j.asRead room).value? = some j → j.fits room = true
  | .null, _, _, _ => rfl
  | .bool _, _, _, _ => rfl
  | .num n, _, _, h => Number.readsBack_iff.mpr (eq_num_of_value? h)
  | .str _, _, _, _ => rfl
  | .arr items, room, hordered, h => by
    by_cases hroom : room = 0
    · rw [asRead, if_pos hroom] at h
      cases h
    · rw [asRead, if_neg hroom, Draft.value?, Option.map_eq_some_iff] at h
      obtain ⟨values, hvalues, heq⟩ := h
      cases heq
      rw [fits, itemsFit_of_asRead items hordered hvalues, Bool.and_true, decide_eq_true_iff]
      exact Nat.pos_of_ne_zero hroom
  | .obj fields, room, hordered, h => by
    obtain ⟨hascending, -⟩ := ordered_obj.mp hordered
    rw [ordered, Bool.and_eq_true] at hordered
    by_cases hroom : room = 0
    · rw [asRead, if_pos hroom] at h
      cases h
    · rw [asRead, if_neg hroom, Draft.value?, Option.map_eq_some_iff] at h
      obtain ⟨pairs, hpairs, heq⟩ := h
      have hpairsAscending : Table.Ascending pairs := by
        rw [Table.Ascending, names_of_fieldsAsRead fields hpairs]
        exact hascending
      rw [object, Table.ofPairs_of_ascending hpairsAscending] at heq
      cases heq
      rw [fits, fieldsFit_of_asRead fields hordered.2 hpairs, Bool.and_true, decide_eq_true_iff]
      exact Nat.pos_of_ne_zero hroom

theorem itemsFit_of_asRead : ∀ (items : List Json) {room : Nat}, itemsOrdered items = true →
    Draft.values? (itemsAsRead room items) = some items → itemsFit room items = true
  | [], _, _, _ => rfl
  | x :: xs, room, hordered, h => by
    rw [itemsOrdered, Bool.and_eq_true] at hordered
    obtain ⟨y, hy, h⟩ := Option.bind_eq_some_iff.mp h
    obtain ⟨ys, hys, h⟩ := Option.bind_eq_some_iff.mp h
    cases h
    rw [itemsFit, fits_of_asRead x hordered.1 hy, itemsFit_of_asRead xs hordered.2 hys]
    rfl

theorem fieldsFit_of_asRead : ∀ (fields : List (String × Json)) {room : Nat},
    fieldsOrdered fields = true → Draft.fieldValues? (fieldsAsRead room fields) = some fields →
      fieldsFit room fields = true
  | [], _, _, _ => rfl
  | (k, x) :: fields, room, hordered, h => by
    rw [fieldsOrdered, Bool.and_eq_true] at hordered
    obtain ⟨y, hy, h⟩ := Option.bind_eq_some_iff.mp h
    obtain ⟨ys, hys, h⟩ := Option.bind_eq_some_iff.mp h
    cases h
    rw [fieldsFit, fits_of_asRead x hordered.1 hy, fieldsFit_of_asRead fields hordered.2 hys]
    rfl

end

/-- **An ordered value is read as itself exactly if it fits.** -/
theorem value?_asRead_iff {j : Json} (hordered : j.ordered = true) :
    (j.asRead room).value? = some j ↔ j.fits room = true :=
  ⟨fits_of_asRead j hordered, fun h => by rw [asRead_of_fits j h, value?_toDraft j hordered]⟩

/-- **An ordered value is read back from its text exactly if it fits into a document.** -/
theorem parse?_print_iff {j : Json} (hordered : j.ordered = true) :
    parse? j.print = some j ↔ j.fits maxDepth = true := by
  rw [parse?, document?_print_eq, Option.bind_some, value?_asRead_iff hordered]

end Relay.Json
