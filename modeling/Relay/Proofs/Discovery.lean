/-
# What a discovery finds

A discovery is all or nothing. Its reply is a refused credential, or it holds no list of
items where the command expects one, or it gives every choice that the command takes from an
item it can use, and nothing else. The choices stand in the order of their labels, those
with one label in the order of their items; there is only one such list. Where the id of an
item is label and value, choices with one label are the same, so the order of the items
does not matter at all.

Key definitions: `Precedes`, `Arranged`, `Lists`, `Unlisted`, `chosen`.
Key theorems: `arranged_mergeSort`, `Arranged.unique`, `items_eq_ok_iff`, `collect_eq_ok_iff`,
`collect_permuted`, `collects_everything`.
-/
import Relay.Proofs.Reply
import Relay.Proofs.Utf8
import Relay.Discovery

namespace Relay.Discovery

open Text

/-! ### The order of labels -/

def label? (entry : Table String) : Option String := entry.find? "label"

/-- An entry without a label precedes every other, one with a label those whose label is
not before it in the order of bytes. -/
def Precedes (a b : Table String) : Prop :=
  ∀ x, label? a = some x → ∃ y, label? b = some y ∧ Utf8.encode x ≤ Utf8.encode y

theorem encode_le_encode_iff {x y : String} : Utf8.encode x ≤ Utf8.encode y ↔ ¬y < x := by
  rw [← List.not_lt, Utf8.encode_lt_encode_iff]

theorem labelLe_iff {a b : Table String} : labelLe a b = true ↔ Precedes a b := by
  unfold labelLe Precedes label?
  cases a.find? "label" with
  | none => simp
  | some x =>
    cases b.find? "label" with
    | none => simp
    | some y => simp [encode_le_encode_iff]

theorem precedes_trans {a b c : Table String} (hab : Precedes a b) (hbc : Precedes b c) :
    Precedes a c := by
  intro x hx
  obtain ⟨y, hy, hxy⟩ := hab x hx
  obtain ⟨z, hz, hyz⟩ := hbc y hy
  exact ⟨z, hz, List.le_trans hxy hyz⟩

theorem precedes_total (a b : Table String) : Precedes a b ∨ Precedes b a := by
  unfold Precedes
  cases ha : label? a with
  | none => exact .inl fun x hx => (nomatch hx)
  | some x =>
    cases hb : label? b with
    | none => exact .inr fun y hy => (nomatch hy)
    | some y =>
      refine (List.le_total (Utf8.encode x) (Utf8.encode y)).imp (fun h z hz => ?_) fun h z hz => ?_
      · cases hz
        exact ⟨y, rfl, h⟩
      · cases hz
        exact ⟨x, rfl, h⟩

/-- Entries that precede each other have the same label. -/
theorem label?_eq_of_precedes {a b : Table String} (hab : Precedes a b) (hba : Precedes b a) :
    label? a = label? b := by
  cases ha : label? a with
  | none =>
    cases hb : label? b with
    | none => rfl
    | some y =>
      obtain ⟨x, hx, -⟩ := hba y hb
      rw [ha] at hx
      cases hx
  | some x =>
    obtain ⟨y, hy, hxy⟩ := hab x ha
    obtain ⟨x', hx', hyx⟩ := hba y hy
    rw [ha] at hx'
    cases hx'
    have heq : x = y := String.le_antisymm
      (String.not_lt.mp (encode_le_encode_iff.mp hxy))
      (String.not_lt.mp (encode_le_encode_iff.mp hyx))
    rw [hy, heq]

/-- Entries with the same label precede each other. -/
theorem precedes_of_label?_eq {a b : Table String} (h : label? a = label? b) : Precedes a b :=
  fun x hx => ⟨x, h ▸ hx, List.le_refl _⟩

/-! ### Arranged entries -/

/-- The entries with this label, in their order. -/
def labelled (label : Option String) (entries : List (Table String)) : List (Table String) :=
  entries.filter fun e => label? e == label

theorem labelled_cons (label : Option String) (e : Table String) (entries : List (Table String)) :
    labelled label (e :: entries) =
      if label? e = label then e :: labelled label entries else labelled label entries := by
  unfold labelled
  by_cases h : label? e = label <;> simp [h]

theorem labelled_swap {a b : Table String} (h : label? a ≠ label? b) (label : Option String) :
    labelled label [a, b] = labelled label [b, a] := by
  rw [labelled_cons, labelled_cons, labelled_cons, labelled_cons]
  by_cases ha : label? a = label
  · have hb : ¬label? b = label := fun hb => h (ha.trans hb.symm)
    simp only [if_pos ha, if_neg hb]
  · simp only [if_neg ha]

/-- The same entries in the order of their labels, those with one label in the order in which
they were given. -/
structure Arranged (given arranged : List (Table String)) : Prop where
  perm : arranged.Perm given
  ascending : arranged.Pairwise Precedes
  stable : ∀ label, labelled label arranged = labelled label given

/-- **Sorting arranges.** -/
theorem arranged_mergeSort (given : List (Table String)) :
    Arranged given (given.mergeSort labelLe) := by
  have trans : ∀ a b c, labelLe a b = true → labelLe b c = true → labelLe a c = true :=
    fun a b c hab hbc =>
      labelLe_iff.mpr (precedes_trans (labelLe_iff.mp hab) (labelLe_iff.mp hbc))
  have total : ∀ a b, (labelLe a b || labelLe b a) = true := fun a b => by
    rw [Bool.or_eq_true, labelLe_iff, labelLe_iff]
    exact precedes_total a b
  have hperm := List.mergeSort_perm given labelLe
  refine ⟨hperm, (List.pairwise_mergeSort trans total given).imp labelLe_iff.mp, fun label => ?_⟩
  -- what has one label is in order already, so it stays a part of the sorted list
  have hsame : (labelled label given).Pairwise fun a b => labelLe a b = true := by
    refine List.pairwise_iff_forall_sublist.mpr fun {a b} hab => labelLe_iff.mpr ?_
    have mem {e : Table String} (he : e ∈ [a, b]) : label? e = label := by
      have hmem := (List.mem_filter.mp (hab.subset he)).2
      exact eq_of_beq hmem
    exact precedes_of_label?_eq
      ((mem List.mem_cons_self).trans (mem (List.mem_cons_of_mem a List.mem_cons_self)).symm)
  have hsub : (labelled label given).Sublist (given.mergeSort labelLe) :=
    List.sublist_mergeSort trans total hsame List.filter_sublist
  have hlabelled : (labelled label given).Sublist
      (labelled label (given.mergeSort labelLe)) := by
    have hfilter := hsub.filter fun e => label? e == label
    simpa only [labelled, List.filter_filter, Bool.and_self] using hfilter
  exact (hlabelled.eq_of_length (hperm.filter _).length_eq.symm).symm

/-- Each of two arrangements begins with an entry that precedes those of the other. -/
theorem Arranged.head_precedes {given xs ys : List (Table String)} {x y : Table String}
    (hx : Arranged given (x :: xs)) (hy : Arranged given (y :: ys)) : Precedes x y := by
  have hmem : y ∈ x :: xs := hx.perm.mem_iff.mpr (hy.perm.mem_iff.mp List.mem_cons_self)
  rcases List.mem_cons.mp hmem with rfl | htail
  · exact precedes_of_label?_eq rfl
  · exact (List.pairwise_cons.mp hx.ascending).1 y htail

/-- **There is only one arrangement.** -/
theorem Arranged.unique : ∀ {xs ys given : List (Table String)},
    Arranged given xs → Arranged given ys → xs = ys
  | [], ys, given, hx, hy => by
    have hnil : given = [] := List.nil_perm.mp hx.perm
    rw [hnil] at hy
    exact (List.perm_nil.mp hy.perm).symm
  | x :: xs, [], given, hx, hy => by
    have hnil : given = [] := List.nil_perm.mp hy.perm
    rw [hnil] at hx
    exact absurd (List.perm_nil.mp hx.perm) (List.cons_ne_nil x xs)
  | x :: xs, y :: ys, given, hx, hy => by
    have hlabel : label? x = label? y :=
      label?_eq_of_precedes (hx.head_precedes hy) (hy.head_precedes hx)
    -- the first of the entries with that label is the same in both
    have hsame : labelled (label? x) (x :: xs) = labelled (label? x) (y :: ys) :=
      (hx.stable _).trans (hy.stable _).symm
    have hhead : x = y := by
      rw [labelled_cons, labelled_cons, if_pos rfl, if_pos hlabel.symm] at hsame
      exact (List.cons.inj hsame).1
    subst hhead
    have hperm : xs.Perm ys := (hx.perm.trans hy.perm.symm).cons_inv
    have htail : ∀ label, labelled label xs = labelled label ys := fun label => by
      have heq := (hx.stable label).trans (hy.stable label).symm
      rw [labelled_cons, labelled_cons] at heq
      by_cases h : label? x = label
      · rw [if_pos h, if_pos h] at heq
        exact (List.cons.inj heq).2
      · rwa [if_neg h, if_neg h] at heq
    have hxs : Arranged ys xs := ⟨hperm, (List.pairwise_cons.mp hx.ascending).2, htail⟩
    have hys : Arranged ys ys :=
      ⟨.refl ys, (List.pairwise_cons.mp hy.ascending).2, fun _ => rfl⟩
    rw [Arranged.unique hxs hys]

/-! ### The items of a reply -/

variable {command : Command} {reply other : Reply}

/-- The status says that the credential was refused. -/
def Rejected (reply : Reply) : Prop := reply.status = 401 ∨ reply.status = 403

/-- The reply is a success, its body is JSON, and these are the items where the command
expects them. -/
def Lists (command : Command) (reply : Reply) (items : List Json) : Prop :=
  (200 ≤ reply.status ∧ reply.status < 300) ∧ ∃ body, Reply.jsonOf? reply.body = some body ∧
    body.field? command.field = some (.arr items)

/-- The reply is no refusal of the credential, but no success either, or its body is not
JSON, or there is no array where the command expects one. -/
def Unlisted (command : Command) (reply : Reply) : Prop :=
  ¬Rejected reply ∧ (¬(200 ≤ reply.status ∧ reply.status < 300) ∨
    Reply.jsonOf? reply.body = none ∨ ∃ body, Reply.jsonOf? reply.body = some body ∧
      ∀ items, body.field? command.field ≠ some (.arr items))

theorem items?_eq_some_iff {j : Json} {items : List Json} :
    j.items? = some items ↔ j = .arr items := by
  cases j <;> simp [Json.items?]

/-- How the items of a reply are found, or why there are none. -/
inductive Found (command : Command) (reply : Reply) : Except Failure (List Json) → Prop
  | rejected {f : Failure} (h : Rejected reply) (hkind : f.kind = .authentication) :
    Found command reply (.error f)
  | unlisted {f : Failure} (h : Unlisted command reply) (hkind : f.kind = .structural) :
    Found command reply (.error f)
  | listed {items : List Json} (h : Lists command reply items) : Found command reply (.ok items)

theorem items_found (command : Command) (reply : Reply) :
    Found command reply (items command reply) := by
  unfold items
  by_cases hrejected : reply.status = 401 ∨ reply.status = 403
  · rw [if_pos hrejected]
    exact .rejected hrejected rfl
  rw [if_neg hrejected]
  by_cases hsuccess : reply.isSuccess = true
  · rw [hsuccess, Bool.not_true, if_neg Bool.false_ne_true]
    have hstatus := Reply.isSuccess_iff.mp hsuccess
    cases hbody : Reply.jsonOf? reply.body with
    | none => exact .unlisted ⟨hrejected, .inr (.inl hbody)⟩ rfl
    | some body =>
      dsimp only
      cases hitems : (body.field? command.field).bind Json.items? with
      | none =>
        refine .unlisted ⟨hrejected, .inr (.inr ⟨body, hbody, fun items hfield => ?_⟩)⟩ rfl
        rw [hfield] at hitems
        cases hitems
      | some items =>
        obtain ⟨j, hfield, hj⟩ := Option.bind_eq_some_iff.mp hitems
        rw [items?_eq_some_iff.mp hj] at hfield
        exact .listed ⟨hstatus, body, hbody, hfield⟩
  · have hstatus : ¬(200 ≤ reply.status ∧ reply.status < 300) :=
      fun h => hsuccess (Reply.isSuccess_iff.mpr h)
    rw [Bool.not_eq_true] at hsuccess
    rw [hsuccess, Bool.not_false, if_pos rfl]
    exact .unlisted ⟨hrejected, .inl hstatus⟩ rfl

theorem Lists.unique {items items' : List Json} (h : Lists command reply items)
    (h' : Lists command reply items') : items = items' := by
  obtain ⟨-, body, hbody, hfield⟩ := h
  obtain ⟨-, body', hbody', hfield'⟩ := h'
  rw [hbody] at hbody'
  cases hbody'
  rw [hfield] at hfield'
  cases hfield'
  rfl

theorem Lists.not_rejected {items : List Json} (h : Lists command reply items) :
    ¬Rejected reply := by
  obtain ⟨hstatus, -⟩ := h
  unfold Rejected
  omega

theorem Lists.not_unlisted {items : List Json} (h : Lists command reply items) :
    ¬Unlisted command reply := by
  obtain ⟨hstatus, body, hbody, hfield⟩ := h
  rintro ⟨-, hnot | hnone | ⟨body', hbody', hnot⟩⟩
  · exact hnot hstatus
  · rw [hbody] at hnone
    cases hnone
  · rw [hbody] at hbody'
    cases hbody'
    exact hnot items hfield

/-- The items are found exactly where the reply lists them. -/
theorem items_eq_ok_iff {list : List Json} :
    items command reply = .ok list ↔ Lists command reply list := by
  have hfound := items_found command reply
  constructor
  · intro h
    rw [h] at hfound
    cases hfound with
    | listed h => exact h
  · intro h
    generalize items command reply = result at hfound
    cases hfound with
    | rejected hrejected => exact absurd hrejected h.not_rejected
    | unlisted hunlisted => exact absurd hunlisted h.not_unlisted
    | listed h' => rw [h'.unique h]

/-! ### The choices -/

/-- One choice for every item that the command can use and that has one, in the order of
the items. -/
def chosen (command : Command) (items : List Json) : List (Table String) :=
  (items.filter command.isCompatible).filterMap command.entry?

/-- **A discovery that succeeds has found every choice**, in the order of the labels. -/
theorem collect_eq_ok_iff {found : Discovered} : collect command reply = .ok found ↔
    found.refreshed = none ∧
      ∃ items, Lists command reply items ∧ Arranged (chosen command items) found.entries := by
  unfold collect
  constructor
  · intro h
    cases hitems : items command reply with
    | error f =>
      rw [hitems] at h
      cases h
    | ok list =>
      rw [hitems] at h
      cases h
      exact ⟨rfl, list, items_eq_ok_iff.mp hitems, arranged_mergeSort _⟩
  · rintro ⟨hrefreshed, list, hlists, harranged⟩
    obtain ⟨entries, refreshed⟩ := found
    have heq : entries = Discovery.entries command list :=
      harranged.unique (arranged_mergeSort _)
    rw [items_eq_ok_iff.mpr hlists, heq, show refreshed = none from hrefreshed]
    rfl

theorem collect_eq_error_iff {f : Failure} :
    collect command reply = .error f ↔ items command reply = .error f := by
  unfold collect
  cases items command reply with
  | error f' =>
    have hmap : (Except.error f' : Except Failure (List Json)).map
        (fun items => ({ entries := entries command items } : Discovered)) = .error f' := rfl
    rw [hmap]
    constructor
    · rintro ⟨⟩
      rfl
    · rintro ⟨⟩
      rfl
  | ok list => exact ⟨fun h => (nomatch h), fun h => (nomatch h)⟩

/-- It fails for the credential exactly if the credential was refused. -/
theorem collect_authentication_iff :
    (∃ f, collect command reply = .error f ∧ f.kind = .authentication) ↔ Rejected reply := by
  simp only [collect_eq_error_iff]
  have hfound := items_found command reply
  generalize items command reply = result at hfound
  cases hfound with
  | rejected h hkind => exact ⟨fun _ => h, fun _ => ⟨_, rfl, hkind⟩⟩
  | unlisted h hkind =>
    refine ⟨fun ⟨f, heq, hauth⟩ => ?_, fun hrejected => absurd hrejected h.1⟩
    cases heq
    rw [hkind] at hauth
    cases hauth
  | listed h => exact ⟨fun ⟨f, heq, _⟩ => (nomatch heq), fun hr => absurd hr h.not_rejected⟩

/-- It fails for the form of the reply exactly if the reply lists nothing. -/
theorem collect_structural_iff :
    (∃ f, collect command reply = .error f ∧ f.kind = .structural) ↔ Unlisted command reply := by
  simp only [collect_eq_error_iff]
  have hfound := items_found command reply
  generalize items command reply = result at hfound
  cases hfound with
  | rejected h hkind =>
    refine ⟨fun ⟨f, heq, hstructural⟩ => ?_, fun hunlisted => absurd h hunlisted.1⟩
    cases heq
    rw [hkind] at hstructural
    cases hstructural
  | unlisted h hkind => exact ⟨fun _ => h, fun _ => ⟨_, rfl, hkind⟩⟩
  | listed h => exact ⟨fun ⟨f, heq, _⟩ => (nomatch heq), fun hu => absurd hu h.not_unlisted⟩

/-- It does not fail for any other reason. -/
theorem exists_collect_eq_ok_iff :
    (∃ found, collect command reply = .ok found) ↔
      ¬Rejected reply ∧ ¬Unlisted command reply := by
  constructor
  · rintro ⟨found, hcollect⟩
    obtain ⟨-, list, hlists, -⟩ := collect_eq_ok_iff.mp hcollect
    exact ⟨hlists.not_rejected, hlists.not_unlisted⟩
  · rintro ⟨hrejected, hunlisted⟩
    have hfound := items_found command reply
    generalize hitems : items command reply = result at hfound
    cases hfound with
    | rejected h => exact absurd h hrejected
    | unlisted h => exact absurd h hunlisted
    | @listed list h =>
      have harranged := arranged_mergeSort (chosen command list)
      exact ⟨⟨entries command list, none⟩, collect_eq_ok_iff.mpr ⟨rfl, list, h, harranged⟩⟩

/-- An entry made of an id is determined by its label. -/
theorem idEntry?_eq {item : Json} {entry : Table String} (h : Command.idEntry? item = some entry) :
    ∃ id, entry = [("label", id), ("value", id)] := by
  unfold Command.idEntry? at h
  obtain ⟨j, -, h⟩ := Option.bind_eq_some_iff.mp h
  obtain ⟨id, -, h⟩ := Option.bind_eq_some_iff.mp h
  exact ⟨id, (Option.some.inj h).symm⟩

/-- **The order of the items does not matter** where their ids are the entries. -/
theorem collect_permuted (hentry : command.entry? = Command.idEntry?) {list list' : List Json}
    (h : Lists command reply list) (h' : Lists command other list') (hperm : list.Perm list') :
    collect command other = collect command reply := by
  have hchosen : (chosen command list).Perm (chosen command list') :=
    (hperm.filter _).filterMap _
  have harranged := arranged_mergeSort (chosen command list)
  have harranged' := arranged_mergeSort (chosen command list')
  have antisymm : ∀ a b : Table String, a ∈ entries command list → b ∈ entries command list' →
      Precedes a b → Precedes b a → a = b := by
    intro a b ha hb hab hba
    have made {entry : Table String} {items : List Json} (hmem : entry ∈ entries command items) :
        ∃ id, entry = [("label", id), ("value", id)] := by
      have hmem' := (arranged_mergeSort (chosen command items)).perm.mem_iff.mp hmem
      obtain ⟨item, -, hitem⟩ := List.mem_filterMap.mp hmem'
      rw [hentry] at hitem
      exact idEntry?_eq hitem
    obtain ⟨x, rfl⟩ := made ha
    obtain ⟨y, rfl⟩ := made hb
    have hlabel : some x = some y := label?_eq_of_precedes hab hba
    rw [Option.some.inj hlabel]
  have hentries : entries command list = entries command list' :=
    List.Perm.eq_of_pairwise antisymm harranged.ascending harranged'.ascending
      (harranged.perm.trans (hchosen.trans harranged'.perm.symm))
  unfold collect
  rw [items_eq_ok_iff.mpr h, items_eq_ok_iff.mpr h']
  show Except.ok (⟨entries command list', none⟩ : Discovered) = .ok ⟨entries command list, none⟩
  rw [hentries]

/-- **A discovery is all or nothing, and loses nothing.** It fails for the credential or for
the form of the reply, each exactly where the reply gives reason to, and otherwise has every
choice once, in order. Where ids are the entries, another order of the items changes nothing. -/
theorem collects_everything (command : Command) (reply : Reply) :
    ((∃ f, collect command reply = .error f ∧ f.kind = .authentication) ↔ Rejected reply) ∧
    ((∃ f, collect command reply = .error f ∧ f.kind = .structural) ↔ Unlisted command reply) ∧
    ((∃ found, collect command reply = .ok found) ↔
      ¬Rejected reply ∧ ¬Unlisted command reply) ∧
    (∀ found, collect command reply = .ok found ↔ found.refreshed = none ∧
      ∃ items, Lists command reply items ∧ Arranged (chosen command items) found.entries) ∧
    (command.entry? = Command.idEntry? → ∀ other list list', Lists command reply list →
      Lists command other list' → list.Perm list' →
        collect command other = collect command reply) :=
  ⟨collect_authentication_iff, collect_structural_iff, exists_collect_eq_ok_iff,
    fun _ => collect_eq_ok_iff, fun hentry _ _ _ h h' hperm =>
      collect_permuted hentry h h' hperm⟩

/-- Takes the ids of all items. -/
def plain : Command := { name := "plain", build := fun _ _ _ => .error (.unsupported "plain") }

/-- An item with this id. -/
def named (id : String) : Json := .obj [("id", .str id)]

/-- A success that lists two items, and between them one without an id. -/
def listing (first last : String) : Reply where
  status := 200
  body := Utf8.encode
    (Json.print (.obj [("data", .arr [named first, .obj [("object", .str "model")], named last])]))

/-- The item without an id is passed over, and the two others are found in the same order
from both ends. -/
theorem collects_everything_backward :
    (∃ found, collect plain (listing "b" "a") = .ok found ∧
      found.entries.map label? = [some "a", some "b"]) ∧
    collect plain (listing "a" "b") = collect plain (listing "b" "a") := by
  have lists (first last : String) (h : Reply.jsonOf? (listing first last).body =
      some (.obj [("data", .arr [named first, .obj [("object", .str "model")], named last])])) :
      Lists plain (listing first last)
        [named first, .obj [("object", .str "model")], named last] :=
    ⟨⟨by simp [listing], by simp [listing]⟩, _, h, rfl⟩
  have hab := lists "a" "b" (by decide +kernel)
  have hba := lists "b" "a" (by decide +kernel)
  obtain ⟨-, -, -, hcollect, hpermuted⟩ := collects_everything plain (listing "b" "a")
  refine ⟨⟨⟨[[("label", "a"), ("value", "a")], [("label", "b"), ("value", "b")]], none⟩, ?_, rfl⟩,
    hpermuted rfl _ _ _ hba hab (List.reverse_perm [named "a", _, named "b"])⟩
  have hchosen : chosen plain [named "b", .obj [("object", .str "model")], named "a"] =
      [[("label", "b"), ("value", "b")], [("label", "a"), ("value", "a")]] := by
    decide +kernel
  refine (hcollect _).mpr ⟨rfl, _, hba, ?_⟩
  rw [hchosen]
  refine ⟨.swap _ _ _, List.pairwise_pair.mpr (labelLe_iff.mp (by decide)), fun label => ?_⟩
  exact labelled_swap (by decide) label

end Relay.Discovery
