/-
# What sanitizing keeps

Sanitizing drops what has no name and folds the generated headers into the user's. The user's
headers stand first and stay as they are. Behind them comes, in its place among the others, the
first generated header of each name that the user did not set. A second one of the same name is
never added: each is compared with all headers that are there by then, not with the user's
alone. So generated headers that repeat a name lose all but the first.

Key definitions: `Property.HasKey`, `Property.SameName`, `Property.unset`, `Property.firsts`,
`Action.Sanitized`.
Key theorems: `mergeAuto_eq`, `sanitize_keeps`, `mergeAuto_keeps_repeated_iff`.
-/
import Relay.Proofs.Layering

namespace Relay

namespace Property

variable {p q r : Property} {headers auto ps : List Property}

/-! ### Names -/

/-- Something is left of the key after trimming. -/
def HasKey (p : Property) : Prop := Text.trim p.key ≠ ""

instance : Decidable p.HasKey := inferInstanceAs (Decidable (_ ≠ _))

/-- The names are equal but for blanks around them and the case of ASCII letters. -/
def SameName (p q : Property) : Prop := Text.foldName p.key = Text.foldName q.key

instance : Decidable (p.SameName q) := inferInstanceAs (Decidable (_ = _))

theorem SameName.symm (h : p.SameName q) : q.SameName p := Eq.symm h

theorem SameName.trans (h : p.SameName q) (h' : q.SameName r) : p.SameName r := Eq.trans h h'

theorem isBlank_eq_false_iff : p.isBlank = false ↔ p.HasKey := by
  rw [Bool.eq_false_iff]
  exact not_congr (Text.isBlank_iff_trim p.key)

theorem stripBlank_eq (ps : List Property) : stripBlank ps = ps.filter (·.HasKey) := by
  refine List.filter_congr fun p _ => ?_
  rw [Bool.eq_iff_iff, Bool.not_eq_true', isBlank_eq_false_iff, decide_eq_true_iff]

theorem stripBlank_eq_self (h : ∀ p ∈ ps, p.isBlank = false) : stripBlank ps = ps :=
  List.filter_eq_self.mpr fun p hp => by rw [h p hp]; rfl

/-! ### The first of each name -/

/-- The first property of each name, in the order of the list. -/
def firsts : List Property → List Property
  | [] => []
  | p :: ps => p :: (firsts ps).filter fun q => ¬p.SameName q

theorem firsts_sublist : ∀ ps : List Property, (firsts ps).Sublist ps
  | [] => List.Sublist.slnil
  | _ :: ps => (List.filter_sublist.trans (firsts_sublist ps)).cons_cons _

theorem exists_mem_firsts : ∀ {ps : List Property}, p ∈ ps → ∃ q ∈ firsts ps, q.SameName p
  | r :: ps, h => by
    by_cases hr : r.SameName p
    · exact ⟨r, List.mem_cons_self, hr⟩
    · have hp : p ∈ ps := by
        rcases List.mem_cons.mp h with rfl | hp
        · exact absurd rfl hr
        · exact hp
      obtain ⟨q, hq, hname⟩ := exists_mem_firsts hp
      have hkept : ¬r.SameName q := fun h => hr (h.trans hname)
      exact ⟨q, List.mem_cons_of_mem _ (List.mem_filter.mpr ⟨hq, decide_eq_true hkept⟩), hname⟩

/-- Nothing is lost exactly if no name repeats. -/
theorem firsts_eq_self_iff :
    ∀ ps : List Property, firsts ps = ps ↔ ps.Pairwise fun p q => ¬p.SameName q
  | [] => by simp [firsts]
  | p :: ps => by
    rw [firsts, List.cons.injEq, List.pairwise_cons, ← firsts_eq_self_iff ps]
    constructor
    · rintro ⟨-, h⟩
      have hsublist : ((firsts ps).filter fun q => ¬p.SameName q).Sublist (firsts ps) :=
        List.filter_sublist
      rw [h] at hsublist
      have hfirsts : firsts ps = ps :=
        (firsts_sublist ps).eq_of_length_le hsublist.length_le
      rw [hfirsts] at h
      exact ⟨fun q hq => of_decide_eq_true (List.filter_eq_self.mp h q hq), hfirsts⟩
    · rintro ⟨hp, h⟩
      rw [h]
      exact ⟨rfl, List.filter_eq_self.mpr fun q hq => decide_eq_true (hp q hq)⟩

/-- Choosing by name and taking the first of each name commute. -/
theorem firsts_filter {keep : Property → Bool} (h : ∀ p q, p.SameName q → keep p = keep q) :
    ∀ ps : List Property, firsts (ps.filter keep) = (firsts ps).filter keep
  | [] => rfl
  | p :: ps => by
    have ih := firsts_filter h ps
    by_cases hp : keep p = true
    · rw [List.filter_cons_of_pos hp, firsts, ih, firsts, List.filter_cons_of_pos hp,
        List.filter_filter, List.filter_filter]
      simp only [Bool.and_comm]
    · -- whatever has the name of `p` is not kept either
      have hsame (q : Property) : (keep q && decide ¬p.SameName q) = keep q := by
        by_cases hq : p.SameName q
        · rw [← h p q hq, Bool.eq_false_iff.mpr hp, Bool.false_and]
        · rw [decide_eq_true hq, Bool.and_true]
      rw [List.filter_cons_of_neg hp, ih, firsts, List.filter_cons_of_neg hp, List.filter_filter]
      simp only [hsame]

/-! ### Merged headers -/

/-- The generated headers whose name no header of the user has, in order. -/
def unset (headers auto : List Property) : List Property :=
  auto.filter fun p => !headers.any fun q => q.SameName p

theorem present_eq : present headers p = headers.any fun q => q.SameName p := rfl

theorem mem_unset : p ∈ unset headers auto ↔ p ∈ auto ∧ ∀ q ∈ headers, ¬q.SameName p := by
  simp [unset]

theorem unset_cons_of_present (h : present headers p = true) :
    unset headers (p :: auto) = unset headers auto :=
  List.filter_cons_of_neg (by rw [← present_eq, h]; decide)

theorem unset_cons_of_not_present (h : ¬present headers p = true) :
    unset headers (p :: auto) = p :: unset headers auto :=
  List.filter_cons_of_pos (by rw [← present_eq, Bool.not_eq_true', Bool.eq_false_iff]; exact h)

/-- One header more leaves those that are not called like it. -/
theorem unset_append_singleton :
    unset (headers ++ [p]) auto = (unset headers auto).filter fun q => ¬p.SameName q := by
  unfold unset
  rw [List.filter_filter]
  refine List.filter_congr fun q _ => ?_
  rw [List.any_append, Bool.not_or, Bool.and_comm]
  simp

/-- **Behind the user's headers comes the first generated one of each name that the user did
not set.** -/
theorem mergeAuto_eq (headers auto : List Property) :
    mergeAuto headers auto = headers ++ firsts (unset headers auto) := by
  induction auto generalizing headers with
  | nil => simp [mergeAuto, unset, firsts]
  | cons p auto ih =>
    have hstep : mergeAuto headers (p :: auto) =
        mergeAuto (if present headers p then headers else headers ++ [p]) auto := rfl
    by_cases hp : present headers p = true
    · rw [hstep, if_pos hp, ih, unset_cons_of_present hp]
    · have hname (q r : Property) (h : q.SameName r) :
          decide (¬p.SameName q) = decide (¬p.SameName r) :=
        decide_eq_decide.mpr (not_congr ⟨fun hq => hq.trans h, fun hr => hr.trans h.symm⟩)
      calc mergeAuto headers (p :: auto)
          = mergeAuto (headers ++ [p]) auto := by rw [hstep, if_neg hp]
        _ = headers ++ [p] ++ firsts ((unset headers auto).filter fun q => ¬p.SameName q) := by
            rw [ih, unset_append_singleton]
        _ = headers ++ p :: (firsts (unset headers auto)).filter fun q => ¬p.SameName q := by
            rw [firsts_filter hname, List.append_assoc, List.singleton_append]
        _ = headers ++ firsts (unset headers (p :: auto)) := by
            rw [unset_cons_of_not_present hp, firsts]

/-- **All generated headers that the user did not set are kept exactly if no two of them have
the same name**; otherwise the first of each name is. -/
theorem mergeAuto_keeps_repeated_iff (headers auto : List Property) :
    mergeAuto headers auto = headers ++ firsts (unset headers auto) ∧
    (mergeAuto headers auto = headers ++ unset headers auto ↔
      (unset headers auto).Pairwise fun p q => ¬p.SameName q) := by
  have heq := mergeAuto_eq headers auto
  refine ⟨heq, ?_⟩
  rw [heq, List.append_cancel_left_eq, firsts_eq_self_iff]

/-- **Of two generated headers of one name the second is lost**, though the user set neither. -/
theorem mergeAuto_drops_repeated :
    mergeAuto [] [⟨"X-Tag", "a"⟩, ⟨"X-Tag", "b"⟩] = [⟨"X-Tag", "a"⟩] ∧
    mergeAuto [] [⟨"X-Tag", "a"⟩, ⟨"X-Tag", "b"⟩] ≠
      [] ++ unset [] [⟨"X-Tag", "a"⟩, ⟨"X-Tag", "b"⟩] := by
  decide +kernel

end Property

/-! ### Sanitized actions -/

namespace Action

open Property

/-- `b` is what is left of `a` to send. -/
structure Sanitized (a b : Action) : Prop where
  /-- Nothing is left that has no name. -/
  named : ∀ p ∈ b.headers ++ b.query ++ b.form ++ b.templates, p.HasKey
  /-- The user's headers, and then some of the generated ones, none that the user set. -/
  headers : ∃ chosen, b.headers = a.headers.filter (·.HasKey) ++ chosen ∧
    chosen.Sublist (a.autoHeaders.filter (·.HasKey)) ∧
    ∀ p ∈ chosen, ∀ q ∈ a.headers, ¬q.SameName p
  /-- No name of a generated header is lost. -/
  covered : ∀ p ∈ a.autoHeaders, p.HasKey → ∃ q ∈ b.headers, q.SameName p
  folded : b.autoHeaders = []
  query : b.query = a.query.filter (·.HasKey)
  form : b.form = a.form.filter (·.HasKey)
  templates : b.templates = a.templates.filter (·.HasKey)
  others : b = { a with
    headers := b.headers, autoHeaders := b.autoHeaders, query := b.query, form := b.form,
    templates := b.templates }

/-- A header without a name is called like no header with one. -/
theorem hasKey_of_sameName {p q : Property} (h : q.SameName p) (hp : p.HasKey) : q.HasKey := by
  intro hblank
  have hempty : Text.lower (Text.trim p.key) = "" := by
    rw [← Text.foldName, ← h, Text.foldName, hblank]
    rfl
  have hchars : (Text.trim p.key).toList = [] := by
    simpa [Text.lower, Text.lowerChars] using hempty
  exact hp (String.toList_eq_nil_iff.mp hchars)

theorem headers_sanitize (a : Action) : a.sanitize.headers = a.headers.filter (·.HasKey) ++
    firsts (unset (a.headers.filter (·.HasKey)) (a.autoHeaders.filter (·.HasKey))) := by
  rw [← stripBlank_eq, ← stripBlank_eq]
  exact mergeAuto_eq _ _

theorem sanitized_sanitize (a : Action) : a.Sanitized a.sanitize where
  named p hp := by
    rw [List.mem_append, List.mem_append, List.mem_append] at hp
    rw [← isBlank_eq_false_iff]
    rcases hp with ((hp | hp) | hp) | hp
    · exact a.not_blank_of_mem_headers p hp
    · exact a.not_blank_of_mem_query p hp
    · exact a.not_blank_of_mem_form p hp
    · exact (mem_stripBlank.mp hp).2
  headers := by
    refine ⟨_, a.headers_sanitize, ?_, ?_⟩
    · exact (firsts_sublist _).trans List.filter_sublist
    · intro p hp q hq hname
      have hunset := (firsts_sublist _).subset hp
      obtain ⟨hauto, hfree⟩ := mem_unset.mp hunset
      have hkey : p.HasKey := of_decide_eq_true (List.mem_filter.mp hauto).2
      have hkept : q ∈ a.headers.filter (·.HasKey) :=
        List.mem_filter.mpr ⟨hq, decide_eq_true (hasKey_of_sameName hname hkey)⟩
      exact hfree q hkept hname
  covered p hp hkey := by
    rw [a.headers_sanitize]
    have hauto : p ∈ a.autoHeaders.filter (·.HasKey) :=
      List.mem_filter.mpr ⟨hp, decide_eq_true hkey⟩
    by_cases hset : ∃ q ∈ a.headers.filter (·.HasKey), q.SameName p
    · obtain ⟨q, hq, hname⟩ := hset
      exact ⟨q, List.mem_append_left _ hq, hname⟩
    · have hunset : p ∈ unset (a.headers.filter (·.HasKey)) (a.autoHeaders.filter (·.HasKey)) :=
        mem_unset.mpr ⟨hauto, fun q hq hname => hset ⟨q, hq, hname⟩⟩
      obtain ⟨q, hq, hname⟩ := exists_mem_firsts hunset
      exact ⟨q, List.mem_append_right _ hq, hname⟩
  folded := rfl
  query := stripBlank_eq _
  form := stripBlank_eq _
  templates := stripBlank_eq _
  others := rfl

/-- What has been sanitized stays as it is. -/
theorem sanitize_sanitize (a : Action) : a.sanitize.sanitize = a.sanitize := by
  have hheaders : mergeAuto (stripBlank a.sanitize.headers) [] = a.sanitize.headers :=
    stripBlank_eq_self a.not_blank_of_mem_headers
  have hstripped (ps : List Property) : stripBlank (stripBlank ps) = stripBlank ps :=
    stripBlank_eq_self fun p hp => (mem_stripBlank.mp hp).2
  calc a.sanitize.sanitize
      = { a.sanitize with
          headers := mergeAuto (stripBlank a.sanitize.headers) []
          query := stripBlank (stripBlank a.query)
          form := stripBlank (stripBlank a.form)
          templates := stripBlank (stripBlank a.templates) } := rfl
    _ = a.sanitize := by
        rw [hheaders, hstripped, hstripped, hstripped]
        rfl

/-- **Sanitizing keeps exactly what should be sent**, and a second time changes nothing. -/
theorem sanitize_keeps (a : Action) :
    a.Sanitized a.sanitize ∧ a.sanitize.sanitize = a.sanitize :=
  ⟨a.sanitized_sanitize, a.sanitize_sanitize⟩

end Action

end Relay
