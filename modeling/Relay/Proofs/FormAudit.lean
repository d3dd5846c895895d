/-
# What an audit shows of a form

The fields of a form are sent one after another, each of them, whether their keys repeat or not.
They are shown as an object, and an object has each key once: under it stands the value of the
last field with this key. So all that is sent is shown exactly if no key repeats, and two forms
are shown alike exactly if the last values of all keys are the same.

Key definitions: `Body.sent`, `Body.shown`.
Key theorems: `find?_ofPairs`, `eq_of_find?_eq`, `fieldsJson_eq_iff`, `audit_shows_all_iff`.
-/
import Relay.Request
import Relay.Proofs.Ordering

namespace Relay

/-! ### Tables by what is found in them -/

namespace Table

variable {α : Type} {s t : Table α} {name : String}

/-- **Under a name stands what was entered last.** -/
theorem find?_ofPairs (pairs : List (String × α)) (name : String) :
    find? (ofPairs pairs) name = ((pairs.filter fun e => e.1 == name).getLast?).map (·.2) := by
  have hfold (pairs : List (String × α)) (t : Table α) :
      find? (pairs.foldl (fun t entry => insert t entry.1 entry.2) t) name =
        (((pairs.filter fun e => e.1 == name).getLast?).map (·.2)).or (find? t name) := by
    induction pairs generalizing t with
    | nil => rfl
    | cons entry pairs ih =>
      rw [List.foldl_cons, ih]
      by_cases hname : entry.1 = name
      · have hkept : (entry :: pairs).filter (fun e => e.1 == name) =
            entry :: pairs.filter fun e => e.1 == name :=
          List.filter_cons_of_pos (beq_iff_eq.mpr hname)
        have hfound : find? (insert t entry.1 entry.2) name = some entry.2 := by
          rw [hname]
          exact find?_insert_self t name entry.2
        rw [hkept, List.getLast?_cons, hfound]
        cases (pairs.filter fun e => e.1 == name).getLast? <;> rfl
      · have hdropped : (entry :: pairs).filter (fun e => e.1 == name) =
            pairs.filter fun e => e.1 == name :=
          List.filter_cons_of_neg (by simpa using hname)
        rw [hdropped, find?_insert_of_ne _ _ (Ne.symm hname)]
  have hstart := hfold pairs []
  rwa [find?, Option.or_none] at hstart

/-- A name in front of all others is not there. -/
theorem find?_of_lt (h : ∀ e ∈ t, name < e.1) : find? t name = none := by
  induction t with
  | nil => rfl
  | cons entry t ih =>
    have hne : entry.1 ≠ name := fun heq =>
      String.lt_irrefl name (heq ▸ h entry List.mem_cons_self)
    rw [find?, if_neg hne, ih fun e he => h e (List.mem_cons_of_mem _ he)]

/-- The first name of a table does not come before that of another in which it is found. -/
theorem not_lt_of_find?_eq {entry entry' : String × α} (ht : Ascending (entry' :: t))
    (h : ∀ name, find? (entry :: s) name = find? (entry' :: t) name) : ¬entry.1 < entry'.1 := by
  intro hlt
  have hbehind : ∀ e ∈ entry' :: t, entry.1 < e.1 := by
    intro e he
    rcases List.mem_cons.mp he with rfl | he
    · exact hlt
    · exact String.lt_trans hlt ((ascending_cons.mp ht).1 e he)
  have hnone := (h entry.1).trans (find?_of_lt hbehind)
  rw [find?, if_pos rfl] at hnone
  cases hnone

/-- **Ascending tables in which the same is found are equal.** -/
theorem eq_of_find?_eq (hs : Ascending s) (ht : Ascending t)
    (h : ∀ name, find? s name = find? t name) : s = t := by
  induction s generalizing t with
  | nil =>
    cases t with
    | nil => rfl
    | cons entry t =>
      have hnone := h entry.1
      simp [find?] at hnone
  | cons entry s ih =>
    cases t with
    | nil =>
      have hnone := h entry.1
      simp [find?] at hnone
    | cons entry' t =>
      obtain ⟨hfirst, hs'⟩ := ascending_cons.mp hs
      obtain ⟨hfirst', ht'⟩ := ascending_cons.mp ht
      have hname : entry.1 = entry'.1 := String.le_antisymm
        (String.not_lt.mp (not_lt_of_find?_eq hs fun name => (h name).symm))
        (String.not_lt.mp (not_lt_of_find?_eq ht h))
      have hvalue : entry.2 = entry'.2 := by
        have hfound := h entry.1
        rw [find?, if_pos rfl, find?, if_pos hname.symm] at hfound
        exact Option.some.inj hfound
      have hrest : s = t := by
        refine ih hs' ht' fun name => ?_
        by_cases heq : entry.1 = name
        · rw [find?_of_lt fun e he => heq ▸ hfirst e he,
            find?_of_lt fun e he => heq ▸ hname ▸ hfirst' e he]
        · have hsame := h name
          rwa [find?, if_neg heq, find?, if_neg (hname ▸ heq)] at hsame
      rw [hrest, Prod.ext hname hvalue]

end Table

/-! ### Forms -/

namespace Body

variable {fields others : List Property} {key : String}

/-- The values that are sent under a key, in their order. -/
def sent (fields : List Property) (key : String) : List String :=
  (fields.filter fun p => p.key == key).map (·.value)

/-- The values that an audit shows under a key. -/
def shown (audit : Option Json) (key : String) : List String :=
  ((audit.bind (Json.field? key)).bind Json.text?).toList

/-- **Under a key stands the last value that is sent.** -/
theorem field?_fieldsJson (fields : List Property) (key : String) :
    (fieldsJson fields).field? key = (sent fields key).getLast?.map Json.str := by
  rw [fieldsJson, Json.field?, Table.find?_ofPairs, List.filter_map, sent, List.getLast?_map,
    List.getLast?_map, Option.map_map, Option.map_map]
  rfl

/-- **Two forms are shown alike exactly if the last values of all keys are the same.** -/
theorem fieldsJson_eq_iff : fieldsJson fields = fieldsJson others ↔
    ∀ key, (sent fields key).getLast? = (sent others key).getLast? := by
  constructor
  · intro h key
    have hkey := congrArg (Json.field? key) h
    rw [field?_fieldsJson, field?_fieldsJson] at hkey
    exact Option.map_injective (fun _ _ => Json.str.inj) hkey
  · intro h
    refine congrArg Json.obj (Table.eq_of_find?_eq (Table.ascending_ofPairs _)
      (Table.ascending_ofPairs _) fun key => ?_)
    have hkey : (fieldsJson fields).field? key = (fieldsJson others).field? key := by
      rw [field?_fieldsJson, field?_fieldsJson, h key]
    exact hkey

theorem shown_fieldsJson (fields : List Property) (key : String) :
    shown (some (fieldsJson fields)) key = (sent fields key).getLast?.toList := by
  rw [shown, Option.bind_some, field?_fieldsJson]
  cases (sent fields key).getLast? <;> rfl

/-- No key repeats exactly if at most one value is sent under each. -/
theorem nodup_keys_iff : (fields.map (·.key)).Nodup ↔ ∀ key, (sent fields key).length ≤ 1 := by
  rw [List.nodup_iff_count]
  refine forall_congr' fun key => ?_
  rw [sent, List.length_map, ← List.countP_eq_length_filter, List.count, List.countP_map]
  rfl

/-- A list is all in its last element exactly if it has no more than one. -/
theorem toList_getLast?_eq_self_iff {xs : List String} :
    xs.getLast?.toList = xs ↔ xs.length ≤ 1 := by
  match xs with
  | [] => simp
  | [x] => simp
  | x :: y :: xs =>
    constructor
    · intro h
      have hlength := congrArg List.length h
      rw [List.getLast?_cons] at hlength
      simp at hlength
    · intro h
      simp at h

/-- Where nothing repeats, the last values are all values. -/
theorem sent_eq_iff (h : (fields.map (·.key)).Nodup) (h' : (others.map (·.key)).Nodup) :
    (sent fields key).getLast? = (sent others key).getLast? ↔ sent fields key = sent others key := by
  constructor
  · intro hlast
    rw [← toList_getLast?_eq_self_iff.mpr (nodup_keys_iff.mp h key), hlast]
    exact toList_getLast?_eq_self_iff.mpr (nodup_keys_iff.mp h' key)
  · intro hsent
    rw [hsent]

/-- **The audit of a form shows all that is sent exactly if no key repeats.** It is the same for
two forms exactly if the last values of all keys are; so of forms in which no key repeats it
tells all values of all keys. -/
theorem audit_shows_all_iff {kind : List Property → Body} (hkind : kind = form ∨ kind = multipart) :
    (∀ fields, (∀ key, shown (kind fields).audit key = sent fields key) ↔
      (fields.map (·.key)).Nodup) ∧
    (∀ fields others, (kind fields).audit = (kind others).audit ↔
      ∀ key, (sent fields key).getLast? = (sent others key).getLast?) ∧
    ∀ fields others, (fields.map (·.key)).Nodup → (others.map (·.key)).Nodup →
      ((kind fields).audit = (kind others).audit ↔ ∀ key, sent fields key = sent others key) := by
  have haudit (fields : List Property) : (kind fields).audit = some (fieldsJson fields) := by
    rcases hkind with rfl | rfl
    · rfl
    · rfl
  have halike (fields others : List Property) : (kind fields).audit = (kind others).audit ↔
      ∀ key, (sent fields key).getLast? = (sent others key).getLast? := by
    rw [haudit, haudit, Option.some.injEq, fieldsJson_eq_iff]
  refine ⟨fun fields => ?_, halike, fun fields others h h' => ?_⟩
  · rw [haudit, nodup_keys_iff]
    refine forall_congr' fun key => ?_
    rw [shown_fieldsJson, toList_getLast?_eq_self_iff]
  · rw [halike]
    exact forall_congr' fun key => sent_eq_iff h h'

/-- Two uploads of the same fields in another order, one of them without a value. -/
theorem audit_shows_all_iff_reordered :
    (∀ key, shown (multipart [⟨"b", ""⟩, ⟨"a", "1"⟩]).audit key = sent [⟨"b", ""⟩, ⟨"a", "1"⟩] key) ∧
    (multipart [⟨"b", ""⟩, ⟨"a", "1"⟩]).audit = (multipart [⟨"a", "1"⟩, ⟨"b", ""⟩]).audit ∧
    ∀ key, sent [⟨"b", ""⟩, ⟨"a", "1"⟩] key = sent [⟨"a", "1"⟩, ⟨"b", ""⟩] key := by
  have hnodup : (([⟨"b", ""⟩, ⟨"a", "1"⟩] : List Property).map (·.key)).Nodup := by decide
  have hnodup' : (([⟨"a", "1"⟩, ⟨"b", ""⟩] : List Property).map (·.key)).Nodup := by decide
  have haudit : (multipart [⟨"b", ""⟩, ⟨"a", "1"⟩]).audit =
      (multipart [⟨"a", "1"⟩, ⟨"b", ""⟩]).audit := by decide
  obtain ⟨hshows, -, halike⟩ := audit_shows_all_iff (.inr rfl)
  exact ⟨(hshows _).mpr hnodup, haudit, (halike _ _ hnodup hnodup').mp haudit⟩

/-- **Of a key that repeats the audit hides all values but the last**: a form that sends two
values is shown as one that sends the second alone. -/
theorem audit_hides_repeated :
    (form [⟨"a", "1"⟩, ⟨"a", "2"⟩]).audit = (form [⟨"a", "2"⟩]).audit ∧
    sent [⟨"a", "1"⟩, ⟨"a", "2"⟩] "a" = ["1", "2"] ∧ sent [⟨"a", "2"⟩] "a" = ["2"] := by
  decide

end Body

end Relay
