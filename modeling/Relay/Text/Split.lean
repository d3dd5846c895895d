/-
# Cutting a text at a character

Texts are cut at the first occurrence of a separator or at every occurrence, and
nothing is lost by it: the pieces and the separators give the text back.

Key definitions: `cut`, `pieces`, `join`.
Key theorems: `cut_append`, `cut_append_cons`, `join_pieces`, `pieces_join`,
`pieces_append_cons`.
-/

namespace Relay.Text

/-- What stands before the first `sep`, and what stands after it if there is one. -/
def cut (sep : Char) : List Char → List Char × Option (List Char)
  | [] => ([], none)
  | c :: cs =>
    if c = sep then ([], some cs)
    else (c :: (cut sep cs).1, (cut sep cs).2)

/-- The text between the occurrences of `sep`; at least one piece. -/
def pieces (sep : Char) : List Char → List (List Char)
  | [] => [[]]
  | c :: cs =>
    if c = sep then [] :: pieces sep cs
    else match pieces sep cs with
      | [] => [[c]]
      | p :: ps => (c :: p) :: ps

/-- The pieces with `sep` between neighbours. -/
def join (sep : List Char) : List (List Char) → List Char
  | [] => []
  | [p] => p
  | p :: q :: ps => p ++ sep ++ join sep (q :: ps)

/-- The texts with `sep` between neighbours. -/
def joinText (sep : String) (parts : List String) : String :=
  String.ofList (join sep.toList (parts.map String.toList))

/-- The two sides of a cut and the separator make up the text. -/
theorem cut_append (sep : Char) : ∀ cs : List Char,
    (cut sep cs).1 ++ (match (cut sep cs).2 with | none => [] | some r => sep :: r) = cs
  | [] => rfl
  | c :: cs => by
    unfold cut
    by_cases h : c = sep
    · simp [h]
    · simp only [h, if_false]
      rw [List.cons_append, cut_append sep cs]

/-- A text without the separator is not cut. -/
theorem cut_of_not_mem {sep : Char} : ∀ {cs : List Char}, sep ∉ cs → cut sep cs = (cs, none)
  | [], _ => rfl
  | c :: cs, h => by
    have hc : c ≠ sep := fun heq => h (heq ▸ List.mem_cons_self)
    rw [cut, if_neg hc, cut_of_not_mem fun hmem => h (List.mem_cons_of_mem c hmem)]

/-- The first separator is the one behind a text without it. -/
theorem cut_append_cons {sep : Char} (rest : List Char) :
    ∀ {cs : List Char}, sep ∉ cs → cut sep (cs ++ sep :: rest) = (cs, some rest)
  | [], _ => by rw [List.nil_append, cut, if_pos rfl]
  | c :: cs, h => by
    have hc : c ≠ sep := fun heq => h (heq ▸ List.mem_cons_self)
    rw [List.cons_append, cut, if_neg hc,
      cut_append_cons rest fun hmem => h (List.mem_cons_of_mem c hmem)]

/-- Text without the separator belongs to the last side. -/
theorem cut_append_of_not_mem {sep : Char} {more : List Char} (h : sep ∉ more) :
    ∀ cs : List Char, cut sep (cs ++ more) = match cut sep cs with
      | (before, some rest) => (before, some (rest ++ more))
      | (before, none) => (before ++ more, none)
  | [] => cut_of_not_mem h
  | c :: cs => by
    have ih := cut_append_of_not_mem h cs
    by_cases hc : c = sep
    · rw [List.cons_append, cut, cut, if_pos hc, if_pos hc]
    · rw [List.cons_append, cut, cut, if_neg hc, if_neg hc, ih]
      cases cut sep cs with
      | mk before rest => cases rest <;> rfl

/-- The separator does not stand in front of the cut. -/
theorem not_mem_cut (sep : Char) : ∀ cs : List Char, sep ∉ (cut sep cs).1
  | [] => List.not_mem_nil
  | c :: cs => by
    unfold cut
    split
    · exact List.not_mem_nil
    · rename_i hc
      exact List.not_mem_cons_of_ne_of_not_mem (Ne.symm hc) (not_mem_cut sep cs)

/-- A text with the separator is cut at the first. -/
theorem exists_cut_of_mem {sep : Char} {cs : List Char} (h : sep ∈ cs) :
    ∃ before rest, cs = before ++ sep :: rest ∧ sep ∉ before := by
  have happend := cut_append sep cs
  have hbefore := not_mem_cut sep cs
  cases hrest : (cut sep cs).2 with
  | none =>
    rw [hrest, List.append_nil] at happend
    rw [happend] at hbefore
    exact absurd h hbefore
  | some rest =>
    rw [hrest] at happend
    exact ⟨(cut sep cs).1, rest, happend.symm, hbefore⟩

theorem pieces_ne_nil (sep : Char) : ∀ cs : List Char, pieces sep cs ≠ []
  | [] => by simp [pieces]
  | c :: cs => by
    unfold pieces
    split
    · simp
    · split <;> simp

/-- Joining the pieces again gives the text. -/
theorem join_pieces (sep : Char) : ∀ cs : List Char, join [sep] (pieces sep cs) = cs
  | [] => rfl
  | c :: cs => by
    have ih := join_pieces sep cs
    have hne := pieces_ne_nil sep cs
    unfold pieces
    by_cases h : c = sep
    · simp only [h, if_true]
      cases hp : pieces sep cs with
      | nil => exact absurd hp hne
      | cons p ps => rw [hp] at ih; simp [join, ih]
    · simp only [h, if_false]
      cases hp : pieces sep cs with
      | nil => exact absurd hp hne
      | cons p ps =>
        rw [hp] at ih
        cases ps with
        | nil => simpa [join] using ih
        | cons q qs => simpa [join] using ih

/-- A text without the separator is one piece. -/
theorem pieces_of_not_mem {sep : Char} : ∀ {cs : List Char}, sep ∉ cs → pieces sep cs = [cs]
  | [], _ => rfl
  | c :: cs, h => by
    have hc : c ≠ sep := fun heq => h (heq ▸ List.mem_cons_self)
    rw [pieces, if_neg hc, pieces_of_not_mem fun hmem => h (List.mem_cons_of_mem c hmem)]

/-- The separator stands in no piece. -/
theorem not_mem_of_mem_pieces {sep : Char} : ∀ {cs p : List Char}, p ∈ pieces sep cs → sep ∉ p
  | [], p, h => by
    rw [List.mem_singleton.mp h]
    exact List.not_mem_nil
  | c :: cs, p, h => by
    unfold pieces at h
    split at h
    · rcases List.mem_cons.mp h with rfl | h
      · exact List.not_mem_nil
      · exact not_mem_of_mem_pieces h
    · rename_i hc
      cases hp : pieces sep cs with
      | nil => exact absurd hp (pieces_ne_nil sep cs)
      | cons q qs =>
        have hq : ∀ p ∈ q :: qs, sep ∉ p := fun p hmem => not_mem_of_mem_pieces (hp ▸ hmem)
        rw [hp] at h
        rcases List.mem_cons.mp h with rfl | h
        · exact List.not_mem_cons_of_ne_of_not_mem (Ne.symm hc) (hq q List.mem_cons_self)
        · exact hq p (List.mem_cons_of_mem q h)

/-- A separator parts the pieces in front of it from those behind it. -/
theorem pieces_append_cons (sep : Char) (ds : List Char) :
    ∀ cs : List Char, pieces sep (cs ++ sep :: ds) = pieces sep cs ++ pieces sep ds
  | [] => by simp [pieces]
  | c :: cs => by
    have ih := pieces_append_cons sep ds cs
    rw [List.cons_append, pieces, pieces]
    by_cases h : c = sep
    · rw [if_pos h, if_pos h, ih, List.cons_append]
    · rw [if_neg h, if_neg h, ih]
      cases hp : pieces sep cs with
      | nil => exact absurd hp (pieces_ne_nil sep cs)
      | cons p ps => rfl

/-- One more piece comes behind a separator, unless there is nothing in front of it. -/
theorem pieces_append_last {sep : Char} {last : List Char} (hlast : sep ∉ last)
    (cs : List Char) :
    pieces sep (cs ++ (if cs.isEmpty then [] else [sep]) ++ last) =
      (if cs.isEmpty then [] else pieces sep cs) ++ [last] := by
  cases cs with
  | nil => exact pieces_of_not_mem hlast
  | cons c cs =>
    show pieces sep (c :: cs ++ [sep] ++ last) = pieces sep (c :: cs) ++ [last]
    rw [List.append_assoc, List.singleton_append, pieces_append_cons, pieces_of_not_mem hlast]

/-- Texts without the separator, joined by it, are the pieces again. -/
theorem pieces_join {sep : Char} : ∀ {ps : List (List Char)}, ps ≠ [] → (∀ p ∈ ps, sep ∉ p) →
    pieces sep (join [sep] ps) = ps
  | [], hne, _ => absurd rfl hne
  | [p], _, h => pieces_of_not_mem (h p List.mem_cons_self)
  | p :: q :: ps, _, h => by
    have hp : pieces sep p = [p] := pieces_of_not_mem (h p List.mem_cons_self)
    have hrest : pieces sep (join [sep] (q :: ps)) = q :: ps :=
      pieces_join (List.cons_ne_nil q ps) fun r hr => h r (List.mem_cons_of_mem p hr)
    rw [join, List.append_assoc, List.singleton_append, pieces_append_cons, hp, hrest]
    rfl

/-- One more text at the end comes behind a separator. -/
theorem join_append_singleton (sep q : List Char) : ∀ {ps : List (List Char)}, ps ≠ [] →
    join sep (ps ++ [q]) = join sep ps ++ sep ++ q
  | [], h => absurd rfl h
  | [p], _ => rfl
  | p :: p' :: ps, _ => by
    have ih := join_append_singleton sep q (List.cons_ne_nil p' ps)
    rw [List.cons_append, List.cons_append, join, join, ← List.cons_append, ih]
    simp only [List.append_assoc]

/-- What stands in a text stands in the texts that are joined. -/
theorem mem_join_of_mem {sep p : List Char} {c : Char} (hc : c ∈ p) :
    ∀ {ps : List (List Char)}, p ∈ ps → c ∈ join sep ps
  | [q], h => by rwa [join, ← List.mem_singleton.mp h]
  | q :: r :: ps, h => by
    rw [join]
    rcases List.mem_cons.mp h with rfl | htail
    · exact List.mem_append_left _ (List.mem_append_left _ hc)
    · exact List.mem_append_right _ (mem_join_of_mem hc htail)

/-- What stands in joined texts stands in one of them or in the separator. -/
theorem mem_of_mem_join {sep : List Char} {c : Char} :
    ∀ {ps : List (List Char)}, c ∈ join sep ps → c ∈ sep ∨ ∃ p ∈ ps, c ∈ p
  | [], h => (nomatch h)
  | [p], h => .inr ⟨p, List.mem_cons_self, h⟩
  | p :: q :: ps, h => by
    rw [join, List.mem_append, List.mem_append] at h
    rcases h with (h | h) | h
    · exact .inr ⟨p, List.mem_cons_self, h⟩
    · exact .inl h
    · refine (mem_of_mem_join h).imp_right ?_
      rintro ⟨r, hr, hc⟩
      exact ⟨r, List.mem_cons_of_mem p hr, hc⟩

/-- Every character but the separator stands in a piece. -/
theorem exists_mem_pieces {sep c : Char} {cs : List Char} (hc : c ≠ sep) (h : c ∈ cs) :
    ∃ p ∈ pieces sep cs, c ∈ p := by
  rw [← join_pieces sep cs] at h
  exact (mem_of_mem_join h).resolve_left fun hsep => hc (List.mem_singleton.mp hsep)

/-- The text begins with `head`. -/
def startsWith : List Char → List Char → Bool
  | [], _ => true
  | _ :: _, [] => false
  | h :: hs, c :: cs => h == c && startsWith hs cs

/-- `needle` occurs in the text. -/
def occurs (needle : List Char) : List Char → Bool
  | [] => startsWith needle []
  | c :: cs => startsWith needle (c :: cs) || occurs needle cs

end Relay.Text
