/-
# Substitution in one text

A text can be cut at its placeholders in one way only: the text before a placeholder makes no
pair of opening braces, even with the first brace of the placeholder, the expression makes no
closing pair in the same way, and behind the last placeholder no opening pair is closed again.
So substitution is read off from the left. The text before the first placeholder is kept, the
text of its value is put in, and the rest is substituted on its own, whatever was put in.

Key definitions: `Template.placeholder`, `Template.Plain`, `Template.Cut`.
Key theorems: `cutPair?_eq_none_iff`, `pieces_eq_text_iff_plain`, `pieces_placeholder`,
`cut_iff`, `substitute_exact`.
-/
import Relay.Proofs.Binding

namespace Relay

namespace Template

/-! ### The first pair -/

/-- Behind text that makes no pair, even with one character more, a pair is the first. -/
theorem cutPair?_pair {c : Char} : ∀ {before : List Char} (after : List Char),
    ¬ [c, c] <:+: before ++ [c] → cutPair? c (before ++ c :: c :: after) = some (before, after)
  | [], after, _ => by simp [cutPair?]
  | x :: before, after, h => by
    have hbefore : ¬ [c, c] <:+: before ++ [c] := fun hpair =>
      h (hpair.trans (List.suffix_cons _ _).isInfix)
    have ih := cutPair?_pair after hbefore
    cases before with
    | nil =>
      have hx : ¬ (x = c ∧ c = c) := by
        rintro ⟨rfl, -⟩
        exact h (List.infix_refl _)
      rw [List.nil_append] at ih
      rw [List.cons_append, List.nil_append, cutPair?_cons_cons _ hx, ih]
      rfl
    | cons y before =>
      have hxy : ¬ (x = c ∧ y = c) := by
        rintro ⟨rfl, rfl⟩
        exact h ⟨[], before ++ [y], by simp⟩
      rw [List.cons_append] at ih
      rw [List.cons_append, List.cons_append, cutPair?_cons_cons _ hxy, ih]
      rfl

/-- No cut is made exactly if there is no pair. -/
theorem cutPair?_eq_none_iff {c : Char} : ∀ {cs : List Char},
    cutPair? c cs = none ↔ ¬ [c, c] <:+: cs
  | [] => by simp [cutPair?]
  | [x] => by
    have hshort : ¬ [c, c] <:+: [x] := fun h => by simpa using h.length_le
    simp [cutPair?, hshort]
  | x :: y :: rest => by
    by_cases hxy : x = c ∧ y = c
    · obtain ⟨rfl, rfl⟩ := hxy
      have hpair : [y, y] <:+: y :: y :: rest := ⟨[], rest, rfl⟩
      simp [cutPair?, hpair]
    · have hhead : ¬ [c, c] <+: x :: y :: rest := by
        intro h
        obtain ⟨hx, hrest⟩ := List.cons_prefix_cons.mp h
        exact hxy ⟨hx.symm, (List.cons_prefix_cons.mp hrest).1.symm⟩
      rw [cutPair?_cons_cons rest hxy, Option.map_eq_none_iff, cutPair?_eq_none_iff,
        List.infix_cons_iff (a := x)]
      simp [hhead]

/-! ### Text without placeholders -/

/-- No pair of braces that opens is followed by one that closes. -/
def Plain (cs : List Char) : Prop :=
  ∀ before inner, cs = before ++ '{' :: '{' :: inner → ¬ ['}', '}'] <:+: inner

/-- What stands behind any opening pair stands behind the leftmost one. -/
theorem suffix_of_cutPair? {c : Char} {cs before after literal inner : List Char}
    (h : cutPair? c cs = some (literal, inner)) (hcs : cs = before ++ c :: c :: after) :
    after <:+ inner := by
  obtain ⟨hcut, hfirst⟩ := cutPair?_eq_some h
  have hle : literal.length ≤ before.length := by
    refine Nat.le_of_not_lt fun hlt => hfirst ?_
    -- a shorter text before a pair would be the beginning of the literal and its brace
    have hprefix : before ++ [c, c] <+: literal ++ [c] := by
      have hbefore : before ++ [c, c] <+: cs := ⟨after, by simp [hcs]⟩
      have hliteral : literal ++ [c] <+: cs := ⟨c :: inner, by simp [hcut]⟩
      refine List.prefix_of_prefix_length_le hbefore hliteral ?_
      simp only [List.length_append, List.length_cons, List.length_nil]
      omega
    exact (List.suffix_append before [c, c]).isInfix.trans hprefix.isInfix
  have hlength := congrArg List.length (hcut.symm.trans hcs)
  have hafter : after <:+ cs := ⟨before ++ [c, c], by simp [hcs]⟩
  have hinner : inner <:+ cs := ⟨literal ++ [c, c], by simp [hcut]⟩
  refine List.suffix_of_suffix_length_le hafter hinner ?_
  simp only [List.length_append, List.length_cons] at hlength
  omega

/-- A text is one piece exactly if it is plain. -/
theorem pieces_eq_text_iff_plain {cs : List Char} : pieces cs = [.text cs] ↔ Plain cs := by
  rw [pieces_eq_text_iff]
  constructor
  · intro h before inner hcs hclosed
    cases hopen : cutPair? '{' cs with
    | none => exact cutPair?_eq_none_iff.mp hopen ⟨before, inner, by simp [hcs]⟩
    | some cut =>
      have hclose := cutPair?_eq_none_iff.mp (h cut.1 cut.2 hopen)
      exact hclose (hclosed.trans (suffix_of_cutPair? hopen hcs).isInfix)
  · intro h literal inner hopen
    exact cutPair?_eq_none_iff.mpr (h literal inner (cutPair?_eq_some hopen).1)

/-- A plain text refers to nothing. -/
theorem holes_of_plain {text : String} (h : Plain text.toList) : holes text = [] := by
  rw [holes, pieces_eq_text_iff_plain.mpr h]
  rfl

/-! ### Text with a placeholder -/

/-- An expression between double braces. -/
def placeholder (e : String) : String := "\x7b\x7b" ++ e ++ "\x7d\x7d"

theorem toList_placeholder (lit e rest : String) :
    (lit ++ placeholder e ++ rest).toList =
      lit.toList ++ '{' :: '{' :: (e.toList ++ '}' :: '}' :: rest.toList) := by
  simp [placeholder]

/-- A text is cut at its first placeholder. -/
theorem pieces_placeholder {lit e : List Char} (rest : List Char)
    (hlit : ¬ ['{', '{'] <:+: lit ++ ['{']) (he : ¬ ['}', '}'] <:+: e ++ ['}']) :
    pieces (lit ++ '{' :: '{' :: (e ++ '}' :: '}' :: rest)) =
      .text lit :: .hole (String.ofList (Text.trimChars e)) :: pieces rest :=
  pieces_of_closed (cutPair?_pair _ hlit) (cutPair?_pair _ he)

theorem holes_placeholder {lit e : String} (rest : String)
    (hlit : ¬ ['{', '{'] <:+: lit.toList ++ ['{']) (he : ¬ ['}', '}'] <:+: e.toList ++ ['}']) :
    holes (lit ++ placeholder e ++ rest) = Text.trim e :: holes rest := by
  rw [holes, toList_placeholder, pieces_placeholder rest.toList hlit he]
  rfl

theorem filled_placeholder (value : String → String) {lit e : String} (rest : String)
    (hlit : ¬ ['{', '{'] <:+: lit.toList ++ ['{']) (he : ¬ ['}', '}'] <:+: e.toList ++ ['}']) :
    filled value (lit ++ placeholder e ++ rest) =
      lit ++ value (Text.trim e) ++ filled value rest := by
  rw [filled, toList_placeholder, pieces_placeholder rest.toList hlit he, fill, fill,
    String.ofList_append, String.ofList_append, String.ofList_toList, String.ofList_toList,
    ← String.append_assoc]
  rfl

/-- The text is cut at its placeholders: no piece reaches over a pair of braces that ends
it. -/
inductive Cut : List Char → List Piece → Prop
  | plain {cs : List Char} (h : Plain cs) : Cut cs [.text cs]
  | placeholder {lit e rest : List Char} {ps : List Piece}
    (hlit : ¬ ['{', '{'] <:+: lit ++ ['{']) (he : ¬ ['}', '}'] <:+: e ++ ['}'])
    (hrest : Cut rest ps) :
    Cut (lit ++ '{' :: '{' :: (e ++ '}' :: '}' :: rest))
      (.text lit :: .hole (String.ofList (Text.trimChars e)) :: ps)

theorem cut_pieces (cs : List Char) : Cut cs (pieces cs) := by
  induction cs using pieces.induct with
  | case1 cs hopen =>
    have hpieces := pieces_of_not_opened hopen
    rw [hpieces]
    exact .plain (pieces_eq_text_iff_plain.mp hpieces)
  | case2 cs literal inner hopen hclose =>
    have hpieces := pieces_of_not_closed hopen hclose
    rw [hpieces]
    exact .plain (pieces_eq_text_iff_plain.mp hpieces)
  | case3 cs literal inner hopen expression rest hclose ih =>
    rw [pieces_of_closed hopen hclose]
    obtain ⟨rfl, hliteral⟩ := cutPair?_eq_some hopen
    obtain ⟨rfl, hexpression⟩ := cutPair?_eq_some hclose
    exact .placeholder hliteral hexpression ih

/-- **A text is cut at its placeholders in one way only.** -/
theorem cut_iff {cs : List Char} {ps : List Piece} : Cut cs ps ↔ ps = pieces cs := by
  constructor
  · intro h
    induction h with
    | plain hplain => exact (pieces_eq_text_iff_plain.mpr hplain).symm
    | placeholder hlit he hrest ih => rw [pieces_placeholder _ hlit he, ih]
  · rintro rfl
    exact cut_pieces cs

end Template

namespace Action

variable (values : Table Json)

/-! ### One text -/

/-- Whether expressions can be noted does not depend on what is noted already. -/
theorem noteAll_map_const {α : Type} (a : α) : ∀ (es : List String) (noted later : List Inserted),
    (noteAll values noted es).map (fun _ => a) = (noteAll values later es).map fun _ => a
  | [], _, _ => rfl
  | e :: es, noted, later => by
    rw [noteAll, noteAll]
    cases values.find? e with
    | none => rfl
    | some value => exact noteAll_map_const a es _ _

/-- A text is filled if all that it refers to can be noted. -/
theorem run'_substitute (text : String) (noted : List Inserted) :
    (substitute values text).run' noted =
      (noteAll values noted (Template.holes text)).map fun _ =>
        Template.filled (boundText values) text := by
  rw [substitute_eq_rewrite]
  show Except.map _ (Except.bind (Except.map _ (noteAll values noted (Template.holes text))) _) = _
  cases noteAll values noted (Template.holes text) with
  | error m => rfl
  | ok later => rfl

theorem exists_run'_substitute_iff (text : String) (noted : List Inserted) :
    (∃ out, (substitute values text).run' noted = .ok out) ↔
      ∀ e ∈ Template.holes text, values.contains e = true := by
  rw [run'_substitute, ← exists_noteAll_eq_ok_iff (Template.holes text) noted]
  cases noteAll values noted (Template.holes text) with
  | error m => simp [Except.map]
  | ok later => simp [Except.map]

theorem eq_filled_of_substitute {text out : String} {noted : List Inserted}
    (h : (substitute values text).run' noted = .ok out) :
    out = Template.filled (boundText values) text := by
  rw [run'_substitute] at h
  cases hnote : noteAll values noted (Template.holes text) with
  | error m =>
    rw [hnote] at h
    cases h
  | ok later =>
    rw [hnote] at h
    cases h
    rfl

/-- The first placeholder is replaced, and the rest of the text is substituted on its own. -/
theorem substitute_placeholder {lit e : String} (rest : String) (noted later : List Inserted)
    (hlit : ¬ ['{', '{'] <:+: lit.toList ++ ['{']) (he : ¬ ['}', '}'] <:+: e.toList ++ ['}']) :
    (substitute values (lit ++ Template.placeholder e ++ rest)).run' noted =
      (values.find? (Text.trim e)).elim (.error ⟨Text.trim e⟩) fun value =>
        ((substitute values rest).run' later).map fun rest => lit ++ value.bound ++ rest := by
  rw [run'_substitute, run'_substitute, Template.holes_placeholder rest hlit he,
    Template.filled_placeholder _ rest hlit he, noteAll]
  cases hvalue : values.find? (Text.trim e) with
  | none => rfl
  | some value =>
    have hbound : boundText values (Text.trim e) = value.bound := by
      rw [boundText, hvalue]
      rfl
    rw [hbound]
    show Except.map _ (noteAll values (note noted (Text.trim e) value) _) =
      Except.map _ (Except.map _ _)
    rw [noteAll_map_const values _ (Template.holes rest) _ later]
    cases noteAll values later (Template.holes rest) with
    | error m => rfl
    | ok all => rfl

/-- A text without placeholders is left as it is. -/
theorem substitute_of_plain {text : String} (h : Template.Plain text.toList)
    (noted : List Inserted) : (substitute values text).run' noted = .ok text := by
  have hholes := Template.holes_of_plain h
  rw [run'_substitute, hholes, Template.filled_of_holes_eq_nil hholes]
  rfl

/-! ### Main result -/

/-- **Substitution is exact and goes over a text once.** If the text before a placeholder makes
no opening pair of braces, even with the first brace of the placeholder, and its expression no
closing pair, then the text refers to the trimmed expression and to what the rest refers to,
and what comes of it is the text before, the text of the value, and what comes of the rest on
its own, whatever the value is; without a value the expression is missing. A text in which no
opening pair is followed by a closing one refers to nothing and is left as it is. Substitution
succeeds exactly if all that the text refers to has a value. There is one way to cut a text at
its placeholders, and what comes of it are the literal pieces as they stand, with the texts of
the values between them. -/
theorem substitute_exact :
    (∀ lit e rest : String, ¬ ['{', '{'] <:+: lit.toList ++ ['{'] →
      ¬ ['}', '}'] <:+: e.toList ++ ['}'] →
      Template.holes (lit ++ Template.placeholder e ++ rest) =
        Text.trim e :: Template.holes rest ∧
      ∀ noted later, (substitute values (lit ++ Template.placeholder e ++ rest)).run' noted =
        (values.find? (Text.trim e)).elim (.error ⟨Text.trim e⟩) fun value =>
          ((substitute values rest).run' later).map fun rest => lit ++ value.bound ++ rest) ∧
    (∀ text : String, Template.Plain text.toList →
      Template.holes text = [] ∧ ∀ noted, (substitute values text).run' noted = .ok text) ∧
    (∀ text noted, (∃ out, (substitute values text).run' noted = .ok out) ↔
      ∀ e ∈ Template.holes text, values.contains e = true) ∧
    ∀ text : String, ∃ ps, (∀ qs, Template.Cut text.toList qs ↔ qs = ps) ∧
      (∀ e, e ∈ Template.holes text ↔ .hole e ∈ ps) ∧
      ∀ noted out, (substitute values text).run' noted = .ok out →
        out = String.ofList (Template.fill (boundText values) ps) := by
  refine ⟨fun lit e rest hlit he => ⟨Template.holes_placeholder rest hlit he,
    fun noted later => substitute_placeholder values rest noted later hlit he⟩,
    fun text hplain => ⟨Template.holes_of_plain hplain, substitute_of_plain values hplain⟩,
    exists_run'_substitute_iff values, fun text => ?_⟩
  exact ⟨Template.pieces text.toList, fun qs => Template.cut_iff, fun e => Template.mem_holes,
    fun noted out h => eq_filled_of_substitute values h⟩

/-- The expression begins with a brace, its value looks like a placeholder, and behind the
second placeholder stands an opening pair. -/
theorem substitute_exact_braces :
    ¬ ['{', '{'] <:+: "x\x7b ".toList ++ ['{'] ∧
    ¬ ['}', '}'] <:+: "\x7b a\n".toList ++ ['}'] ∧
    (substitute [("b", .arr [.bool true, .null]), ("\x7b a", .str "{{b}}")]
        "x\x7b \x7b\x7b\x7b a\n\x7d\x7d{{b}}\x7d\x7b\x7b").run' [] =
      .ok "x\x7b {{b}}[true,null]\x7d\x7b\x7b" := by
  obtain ⟨hplaceholder, hplain, -⟩ :=
    substitute_exact [("b", .arr [.bool true, .null]), ("\x7b a", .str "{{b}}")]
  have htext : "x\x7b \x7b\x7b\x7b a\n\x7d\x7d{{b}}\x7d\x7b\x7b" =
      "x\x7b " ++ Template.placeholder "\x7b a\n" ++
        ("" ++ Template.placeholder "b" ++ "\x7d\x7b\x7b") := by decide
  have hend := (hplain "\x7d\x7b\x7b" (Template.pieces_eq_text_iff_plain.mp (by cbv))).2
  refine ⟨by decide, by decide, ?_⟩
  rw [htext, (hplaceholder _ _ _ (by decide) (by decide)).2 [] [],
    (hplaceholder _ _ _ (by decide) (by decide)).2 [] [], hend]
  rfl

end Action

end Relay
