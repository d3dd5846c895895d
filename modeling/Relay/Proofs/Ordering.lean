/-
# Ascending tables and ordered values

Entering names one by one leaves a table in ascending order, in whatever order they come, and
the entries of an ascending table, entered in their order, give this table again. A value is
ordered if all its objects are ascending. What is read from a document is ordered, and an
ordered value is read from its document as it is.

Key definitions: `Table.Ascending`, `Json.ordered`.
Key theorems: `ascending_insert`, `ofPairs_of_ascending`, `ordered_of_value?`,
`value?_toDraft`.
-/
import Relay.Json.Draft

namespace Relay

namespace Table

variable {α : Type} {t : Table α} {name : String} {value : α}

/-- The names of the entries ascend, so that each stands once. -/
def Ascending (t : Table α) : Prop := (t.map Prod.fst).Pairwise (· < ·)

instance : Decidable (Ascending t) := inferInstanceAs (Decidable (List.Pairwise _ _))

theorem ascending_cons {entry : String × α} :
    Ascending (entry :: t) ↔ (∀ e ∈ t, entry.1 < e.1) ∧ Ascending t := by
  simp [Ascending]

/-- Nothing is in a table but what was there and what was entered. -/
theorem mem_of_mem_insert {e : String × α} (h : e ∈ insert t name value) :
    e = (name, value) ∨ e ∈ t := by
  induction t with
  | nil => exact .inl (List.mem_singleton.mp h)
  | cons entry rest ih =>
    unfold insert at h
    split at h
    · rcases List.mem_cons.mp h with h | h
      · exact .inl h
      · exact .inr (List.mem_cons_of_mem _ h)
    · split at h
      · exact List.mem_cons.mp h
      · rcases List.mem_cons.mp h with h | h
        · exact .inr (h ▸ List.mem_cons_self)
        · exact (ih h).imp id (List.mem_cons_of_mem _)

/-- **A table stays in ascending order.** -/
theorem ascending_insert (h : Ascending t) (name : String) (value : α) :
    Ascending (insert t name value) := by
  induction t with
  | nil => simp [insert, Ascending]
  | cons entry rest ih =>
    obtain ⟨hfirst, hrest⟩ := ascending_cons.mp h
    unfold insert
    split
    · rename_i heq
      exact ascending_cons.mpr ⟨fun e he => heq ▸ hfirst e he, hrest⟩
    · rename_i hne
      split
      · rename_i hlt
        refine ascending_cons.mpr ⟨fun e he => ?_, h⟩
        rcases List.mem_cons.mp he with rfl | he
        · exact hlt
        · exact String.lt_trans hlt (hfirst e he)
      · rename_i hnot
        refine ascending_cons.mpr ⟨fun e he => ?_, ih hrest⟩
        rcases mem_of_mem_insert he with rfl | he
        · exact Std.lt_of_le_of_ne (String.not_lt.mp hnot) hne
        · exact hfirst e he

/-- A name behind all others is entered at the end. -/
theorem insert_of_lt (h : ∀ e ∈ t, e.1 < name) : insert t name value = t ++ [(name, value)] := by
  induction t with
  | nil => rfl
  | cons entry rest ih =>
    have hlt := h entry List.mem_cons_self
    have hne : entry.1 ≠ name := fun heq => String.lt_irrefl name (heq ▸ hlt)
    unfold insert
    rw [if_neg hne, if_neg (String.lt_asymm hlt), ih fun e he => h e (List.mem_cons_of_mem _ he)]
    rfl

theorem ascending_ofPairs (pairs : List (String × α)) : Ascending (ofPairs pairs) := by
  have hfold (pairs : List (String × α)) (t : Table α) (h : Ascending t) :
      Ascending (pairs.foldl (fun t entry => insert t entry.1 entry.2) t) := by
    induction pairs generalizing t with
    | nil => exact h
    | cons entry pairs ih => exact ih _ (ascending_insert h _ _)
  exact hfold pairs [] .nil

theorem mem_of_mem_ofPairs {pairs : List (String × α)} {e : String × α} (h : e ∈ ofPairs pairs) :
    e ∈ pairs := by
  have hfold (pairs : List (String × α)) (t : Table α)
      (h : e ∈ pairs.foldl (fun t entry => insert t entry.1 entry.2) t) : e ∈ t ∨ e ∈ pairs := by
    induction pairs generalizing t with
    | nil => exact .inl h
    | cons entry pairs ih =>
      rcases ih _ h with h | h
      · rcases mem_of_mem_insert h with rfl | h
        · exact .inr List.mem_cons_self
        · exact .inl h
      · exact .inr (List.mem_cons_of_mem _ h)
  exact (hfold pairs [] h).resolve_left List.not_mem_nil

/-- **The entries of an ascending table give this table again.** -/
theorem ofPairs_of_ascending (h : Ascending t) : ofPairs t = t := by
  have hfold (later before : Table α) (h : Ascending (before ++ later)) :
      later.foldl (fun t entry => insert t entry.1 entry.2) before = before ++ later := by
    induction later generalizing before with
    | nil => simp
    | cons entry later ih =>
      have hbehind : ∀ e ∈ before, e.1 < entry.1 := by
        intro e he
        rw [Ascending, List.map_append, List.pairwise_append] at h
        exact h.2.2 _ (List.mem_map_of_mem he) _ List.mem_cons_self
      rw [List.append_cons] at h
      rw [List.foldl_cons, insert_of_lt hbehind, ih _ h, ← List.append_cons]
  exact hfold t [] h

end Table

namespace Json

mutual

/-- The entries of every object in the value ascend. -/
def ordered : Json → Bool
  | .arr items => itemsOrdered items
  | .obj fields => decide (Table.Ascending fields) && fieldsOrdered fields
  | _ => true

def itemsOrdered : List Json → Bool
  | [] => true
  | x :: xs => ordered x && itemsOrdered xs

def fieldsOrdered : List (String × Json) → Bool
  | [] => true
  | (_, x) :: xs => ordered x && fieldsOrdered xs

end

theorem fieldsOrdered_iff {fields : List (String × Json)} :
    fieldsOrdered fields = true ↔ ∀ field ∈ fields, field.2.ordered = true := by
  induction fields with
  | nil => simp [fieldsOrdered]
  | cons field fields ih => simp [fieldsOrdered, ih]

theorem ordered_obj {fields : List (String × Json)} :
    (Json.obj fields).ordered = true ↔
      Table.Ascending fields ∧ ∀ field ∈ fields, field.2.ordered = true := by
  rw [ordered, Bool.and_eq_true, decide_eq_true_iff, fieldsOrdered_iff]

/-- An object whose entries come in any order is ordered if they are. -/
theorem ordered_object {fields : List (String × Json)}
    (h : ∀ field ∈ fields, field.2.ordered = true) : (object fields).ordered = true :=
  ordered_obj.mpr ⟨Table.ascending_ofPairs fields, fun _ hfield =>
    h _ (Table.mem_of_mem_ofPairs hfield)⟩

mutual

/-- **An ordered value is read from its document as it is.** -/
theorem value?_toDraft : ∀ j : Json, j.ordered = true → j.toDraft.value? = some j
  | .null, _ => rfl
  | .bool _, _ => rfl
  | .num _, _ => rfl
  | .str _, _ => rfl
  | .arr items, h => by
    rw [toDraft, Draft.value?, values?_itemDrafts items h]
    rfl
  | .obj fields, h => by
    have hascending := (ordered_obj.mp h).1
    rw [ordered, Bool.and_eq_true] at h
    rw [toDraft, Draft.value?, fieldValues?_fieldDrafts fields h.2, Option.map_some, object,
      Table.ofPairs_of_ascending hascending]

theorem values?_itemDrafts : ∀ items : List Json, itemsOrdered items = true →
    Draft.values? (itemDrafts items) = some items
  | [], _ => rfl
  | x :: xs, h => by
    rw [itemsOrdered, Bool.and_eq_true] at h
    rw [itemDrafts, Draft.values?, value?_toDraft x h.1, values?_itemDrafts xs h.2]
    rfl

theorem fieldValues?_fieldDrafts : ∀ fields : List (String × Json), fieldsOrdered fields = true →
    Draft.fieldValues? (fieldDrafts fields) = some fields
  | [], _ => rfl
  | (k, x) :: fields, h => by
    rw [fieldsOrdered, Bool.and_eq_true] at h
    rw [fieldDrafts, Draft.fieldValues?, value?_toDraft x h.1, fieldValues?_fieldDrafts fields h.2]
    rfl

end

mutual

/-- **What is read from a document is ordered.** -/
theorem ordered_of_value? : ∀ (d : Draft) {j : Json}, d.value? = some j → j.ordered = true
  | .null, _, h => by cases h; rfl
  | .bool _, _, h => by cases h; rfl
  | .num _, _, h => by cases h; rfl
  | .str _, _, h => by cases h; rfl
  | .unreadable, _, h => nomatch h
  | .arr items, _, h => by
    obtain ⟨values, hvalues, rfl⟩ := Option.map_eq_some_iff.mp h
    exact itemsOrdered_of_values? items hvalues
  | .obj fields, _, h => by
    obtain ⟨values, hvalues, rfl⟩ := Option.map_eq_some_iff.mp h
    exact ordered_object (fieldsOrdered_iff.mp (fieldsOrdered_of_fieldValues? fields hvalues))

theorem itemsOrdered_of_values? : ∀ (items : List Draft) {values : List Json},
    Draft.values? items = some values → itemsOrdered values = true
  | [], _, h => by cases h; rfl
  | d :: ds, _, h => by
    obtain ⟨x, hx, h⟩ := Option.bind_eq_some_iff.mp h
    obtain ⟨xs, hxs, h⟩ := Option.bind_eq_some_iff.mp h
    cases h
    rw [itemsOrdered, ordered_of_value? d hx, itemsOrdered_of_values? ds hxs]
    rfl

theorem fieldsOrdered_of_fieldValues? : ∀ (fields : List (String × Draft))
    {values : List (String × Json)},
    Draft.fieldValues? fields = some values → fieldsOrdered values = true
  | [], _, h => by cases h; rfl
  | (k, d) :: ds, _, h => by
    obtain ⟨x, hx, h⟩ := Option.bind_eq_some_iff.mp h
    obtain ⟨xs, hxs, h⟩ := Option.bind_eq_some_iff.mp h
    cases h
    rw [fieldsOrdered, ordered_of_value? d hx, fieldsOrdered_of_fieldValues? ds hxs]
    rfl

end

end Json

end Relay
