/-
# Filling leaves no placeholder behind

A placeholder is opened by two neighbouring braces, so a filled text could hold a new
one only if an inserted value opened it: with a pair of its own, or with a brace at its
end that meets the text behind it. Values of neither kind are inert. What stands before
a placeholder is inert too, since the leftmost pair counts, and behind the last
placeholder no pair is closed again. So a text filled with inert values is plain.

Key definitions: `Template.Inert`, `Template.filled`.
Key theorems: `cutPair?_append_of_inert`, `pieces_fill`, `holes_filled`,
`filled_of_holes_eq_nil`.
-/
import Relay.Template

namespace Relay.Template

/-- Text that opens no placeholder, whatever stands behind it. -/
def Inert (cs : List Char) : Prop := ¬ ['{', '{'] <:+: cs ∧ ¬ ['{'] <:+ cs

/-- The text with every placeholder replaced. -/
def filled (value : String → String) (text : String) : String :=
  String.ofList (fill value (pieces text.toList))

/-! ### Inert text -/

/-- Neighbours in two joined texts stand in one of them, or across the seam. -/
theorem pair_infix_append {c : Char} {xs ys : List Char} (h : [c, c] <:+: xs ++ ys) :
    [c, c] <:+: xs ∨ [c, c] <:+: ys ∨ [c] <:+ xs := by
  rcases List.infix_append_iff.mp h with hx | hy | ⟨l, r, hlr, hl, hr⟩
  · exact Or.inl hx
  · exact Or.inr (Or.inl hy)
  · rcases List.append_eq_cons_iff.mp hlr.symm with ⟨rfl, rfl⟩ | ⟨l', rfl, hlr'⟩
    · exact Or.inr (Or.inl hr.isInfix)
    · rcases List.append_eq_cons_iff.mp hlr'.symm with ⟨rfl, -⟩ | ⟨l'', rfl, hnil⟩
      · exact Or.inr (Or.inr hl)
      · obtain ⟨rfl, -⟩ := List.append_eq_nil_iff.mp hnil.symm
        exact Or.inl hl.isInfix

theorem last_suffix_append {c : Char} {xs ys : List Char} (h : [c] <:+ xs ++ ys) :
    [c] <:+ xs ∨ [c] <:+ ys := by
  rcases List.eq_nil_or_concat ys with rfl | ⟨init, d, rfl⟩
  · left
    rwa [List.append_nil] at h
  · right
    rw [List.concat_eq_append, ← List.append_assoc,
      List.singleton_suffix_append_singleton_iff] at h
    rw [List.concat_eq_append, List.singleton_suffix_append_singleton_iff]
    exact h

theorem Inert.append {xs ys : List Char} (hx : Inert xs) (hy : Inert ys) : Inert (xs ++ ys) := by
  constructor
  · intro h
    rcases pair_infix_append h with h | h | h
    · exact hx.1 h
    · exact hy.1 h
    · exact hx.2 h
  · intro h
    rcases last_suffix_append h with h | h
    · exact hx.2 h
    · exact hy.2 h

theorem Inert.tail {x : Char} {xs : List Char} (h : Inert (x :: xs)) : Inert xs :=
  ⟨fun hp => h.1 (hp.trans (List.suffix_cons x xs).isInfix),
    fun hl => h.2 (hl.trans (List.suffix_cons x xs))⟩

/-- Text that makes no pair even with one more brace is inert. -/
theorem inert_of_not_pair_append {cs : List Char} (h : ¬ ['{', '{'] <:+: cs ++ ['{']) :
    Inert cs := by
  constructor
  · intro hp
    exact h (List.infix_append_of_infix_left hp)
  · rintro ⟨init, rfl⟩
    exact h ⟨init, [], by simp⟩

/-! ### The first pair -/

theorem cutPair?_cons_cons {c x y : Char} (rest : List Char) (h : ¬ (x = c ∧ y = c)) :
    cutPair? c (x :: y :: rest) = (cutPair? c (y :: rest)).map fun p => (x :: p.1, p.2) := by
  rw [cutPair?, if_neg h]

/-- A cut is made at the leftmost pair: the text before it makes none, even with the
first brace of the pair. -/
theorem cutPair?_eq_some {c : Char} : ∀ {cs before after : List Char},
    cutPair? c cs = some (before, after) →
    cs = before ++ c :: c :: after ∧ ¬ [c, c] <:+: before ++ [c]
  | [], _, _, h => by simp [cutPair?] at h
  | [_], _, _, h => by simp [cutPair?] at h
  | x :: y :: rest, before, after, h => by
    unfold cutPair? at h
    split at h
    · rename_i hxy
      obtain ⟨rfl, rfl⟩ := hxy
      simp only [Option.some.injEq, Prod.mk.injEq] at h
      obtain ⟨rfl, rfl⟩ := h
      refine ⟨rfl, fun hp => ?_⟩
      have := hp.length_le
      simp at this
    · rename_i hxy
      simp only [Option.map_eq_some_iff, Prod.mk.injEq, Prod.exists] at h
      obtain ⟨b, a, hc, rfl, rfl⟩ := h
      obtain ⟨hcs, hb⟩ := cutPair?_eq_some hc
      refine ⟨by rw [hcs]; rfl, fun hp => ?_⟩
      rw [List.cons_append, List.infix_cons_iff] at hp
      rcases hp with hp | hp
      · -- the pair would be made by `x` and what follows it, which is `y`
        obtain ⟨hx, hhead⟩ := List.cons_prefix_cons.mp hp
        have hy : y = c := by
          cases b with
          | nil => exact (List.cons.inj hcs).1
          | cons d ds =>
            rw [(List.cons.inj hcs).1]
            exact (List.cons_prefix_cons.mp hhead).1.symm
        exact hxy ⟨hx.symm, hy⟩
      · exact hb hp

theorem inert_of_cutPair? {cs before after : List Char}
    (h : cutPair? '{' cs = some (before, after)) : Inert before :=
  inert_of_not_pair_append (cutPair?_eq_some h).2

/-- Inert text in front moves the first pair and nothing else. -/
theorem cutPair?_append_of_inert : ∀ {xs : List Char} (ys : List Char), Inert xs →
    cutPair? '{' (xs ++ ys) = (cutPair? '{' ys).map fun p => (xs ++ p.1, p.2)
  | [], ys, _ => by simp
  | x :: xs, ys, h => by
    have ih := cutPair?_append_of_inert ys h.tail
    rw [List.cons_append]
    cases hcs : xs ++ ys with
    | nil =>
      obtain ⟨rfl, rfl⟩ := List.append_eq_nil_iff.mp hcs
      rfl
    | cons y rest =>
      have hxy : ¬ (x = '{' ∧ y = '{') := by
        rintro ⟨rfl, rfl⟩
        cases xs with
        | nil => exact h.2 (List.suffix_refl _)
        | cons z zs =>
          obtain ⟨rfl, -⟩ := List.cons.inj hcs
          exact h.1 ⟨[], zs, rfl⟩
      rw [cutPair?_cons_cons rest hxy, ← hcs, ih, Option.map_map]
      rfl

/-! ### Filled text -/

theorem pieces_of_not_opened {cs : List Char} (h : cutPair? '{' cs = none) :
    pieces cs = [.text cs] := by
  rw [pieces]
  split
  · rfl
  · rename_i hopen
    rw [h] at hopen
    cases hopen

theorem pieces_of_not_closed {cs literal inner : List Char}
    (hopen : cutPair? '{' cs = some (literal, inner)) (h : cutPair? '}' inner = none) :
    pieces cs = [.text cs] := by
  rw [pieces]
  split
  · rfl
  · rename_i hopen'
    rw [hopen] at hopen'
    cases hopen'
    split
    · rfl
    · rename_i hclose
      rw [h] at hclose
      cases hclose

theorem pieces_of_closed {cs literal inner expression rest : List Char}
    (hopen : cutPair? '{' cs = some (literal, inner))
    (hclose : cutPair? '}' inner = some (expression, rest)) :
    pieces cs =
      .text literal :: .hole (String.ofList (Text.trimChars expression)) :: pieces rest := by
  rw [pieces]
  split
  · rename_i hopen'
    rw [hopen] at hopen'
    cases hopen'
  · rename_i hopen'
    rw [hopen] at hopen'
    cases hopen'
    split
    · rename_i hclose'
      rw [hclose] at hclose'
      cases hclose'
    · rename_i hclose'
      rw [hclose] at hclose'
      cases hclose'
      rfl

/-- A text is one piece if no pair that opens is followed by one that closes. -/
theorem pieces_eq_text_iff {cs : List Char} :
    pieces cs = [.text cs] ↔
      ∀ literal inner, cutPair? '{' cs = some (literal, inner) → cutPair? '}' inner = none := by
  constructor
  · intro h literal inner hopen
    cases hclose : cutPair? '}' inner with
    | none => rfl
    | some cut =>
      rw [pieces_of_closed hopen hclose] at h
      cases h
  · intro h
    cases hopen : cutPair? '{' cs with
    | none => exact pieces_of_not_opened hopen
    | some cut => exact pieces_of_not_closed hopen (h cut.1 cut.2 hopen)

theorem pieces_append_of_inert {xs ys : List Char} (hx : Inert xs) (hy : pieces ys = [.text ys]) :
    pieces (xs ++ ys) = [.text (xs ++ ys)] := by
  rw [pieces_eq_text_iff] at hy ⊢
  intro literal inner h
  rw [cutPair?_append_of_inert ys hx] at h
  simp only [Option.map_eq_some_iff, Prod.mk.injEq, Prod.exists] at h
  obtain ⟨b, a, hopen, -, rfl⟩ := h
  exact hy b a hopen

/-- **Text filled with inert values is plain.** The literal text before a placeholder and
the value put in for it open nothing, and the text behind the last one closes nothing. -/
theorem pieces_fill (value : String → String) (cs : List Char)
    (h : ∀ e, .hole e ∈ pieces cs → Inert (value e).toList) :
    pieces (fill value (pieces cs)) = [.text (fill value (pieces cs))] := by
  induction cs using pieces.induct with
  | case1 cs hopen =>
    rw [pieces_of_not_opened hopen, fill, fill, List.append_nil]
    exact pieces_of_not_opened hopen
  | case2 cs literal inner hopen hclose =>
    rw [pieces_of_not_closed hopen hclose, fill, fill, List.append_nil]
    exact pieces_of_not_closed hopen hclose
  | case3 cs literal inner hopen expression rest hclose ih =>
    rw [pieces_of_closed hopen hclose] at h ⊢
    have hrest := ih fun e he => h e (List.mem_cons_of_mem _ (List.mem_cons_of_mem _ he))
    have hvalue := h _ (List.mem_cons_of_mem _ List.mem_cons_self)
    rw [fill, fill, ← List.append_assoc]
    exact pieces_append_of_inert ((inert_of_cutPair? hopen).append hvalue) hrest

theorem mem_holes {text e : String} : e ∈ holes text ↔ .hole e ∈ pieces text.toList := by
  rw [holes, List.mem_filterMap]
  constructor
  · rintro ⟨piece, hp, he⟩
    cases piece with
    | text cs => cases he
    | hole e' =>
      cases he
      exact hp
  · intro h
    exact ⟨_, h, rfl⟩

theorem pieces_of_holes_eq_nil {text : String} (h : holes text = []) :
    pieces text.toList = [.text text.toList] := by
  rw [pieces_eq_text_iff]
  intro literal inner hopen
  cases hclose : cutPair? '}' inner with
  | none => rfl
  | some cut =>
    have hmem : Piece.hole (String.ofList (Text.trimChars cut.1)) ∈ pieces text.toList := by
      rw [pieces_of_closed hopen hclose]
      exact List.mem_cons_of_mem _ List.mem_cons_self
    rw [← mem_holes, h] at hmem
    cases hmem

/-- A text filled with inert values has no placeholder. -/
theorem holes_filled (value : String → String) (text : String)
    (h : ∀ e ∈ holes text, Inert (value e).toList) : holes (filled value text) = [] := by
  have hpieces := pieces_fill value text.toList fun e he => h e (mem_holes.mpr he)
  rw [holes, filled, String.toList_ofList, hpieces]
  rfl

theorem fill_congr {f g : String → String} : ∀ {ps : List Piece},
    (∀ e, .hole e ∈ ps → f e = g e) → fill f ps = fill g ps
  | [], _ => rfl
  | .text cs :: ps, h => by
    rw [fill, fill, fill_congr fun e he => h e (List.mem_cons_of_mem _ he)]
  | .hole e :: ps, h => by
    rw [fill, fill, h e List.mem_cons_self, fill_congr fun e he => h e (List.mem_cons_of_mem _ he)]

/-- Only the values of the text's own expressions go into it. -/
theorem filled_congr {f g : String → String} {text : String} (h : ∀ e ∈ holes text, f e = g e) :
    filled f text = filled g text :=
  congrArg String.ofList (fill_congr fun e he => h e (mem_holes.mpr he))

/-- Filling a text without placeholders changes nothing. -/
theorem filled_of_holes_eq_nil {value : String → String} {text : String} (h : holes text = []) :
    filled value text = text := by
  rw [filled, pieces_of_holes_eq_nil h, fill, fill, List.append_nil, String.ofList_toList]

end Relay.Template
