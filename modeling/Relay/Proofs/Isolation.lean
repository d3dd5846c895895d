/-
# Datasources kept apart

The pool finds an entry under one text: the name of the connector, a colon and the id of the
datasource. What is done for a datasource leaves the entries under all other texts alone. But two
datasources have the same text if the name of one connector goes on, behind the name of the
other and a colon, with what the id of the other begins with. So the pool keeps two datasources
apart exactly if their names do not overlap in this way, as they never do where neither
connector has a colon in its name.

Key definitions: `Pool.Overlap`, `Access.StepAt`.
Key theorems: `Pool.key_eq_key_iff`, `StepAt.find?_of_ne`, `isolated_iff`.
-/
import Relay.Proofs.Versions

namespace Relay

open Call Wire

/-! ### Keys -/

namespace Pool

/-- The longer name of the two connectors is the shorter one, a colon and some text; with that
text and a colon, the id of the connector with the shorter name begins, and the other id is the
rest of it. -/
def Overlap (connector id connector' id' : String) : Prop :=
  ∃ between,
    (connector' = connector ++ ":" ++ between ∧ id = between ++ ":" ++ id') ∨
    (connector = connector' ++ ":" ++ between ∧ id' = between ++ ":" ++ id)

variable {connector id connector' id' : String}

theorem Overlap.symm (h : Overlap connector id connector' id') :
    Overlap connector' id' connector id := by
  obtain ⟨between, h | h⟩ := h
  · exact ⟨between, .inr h⟩
  · exact ⟨between, .inl h⟩

theorem Overlap.key_eq (h : Overlap connector id connector' id') :
    key connector id = key connector' id' := by
  obtain ⟨between, ⟨rfl, rfl⟩ | ⟨rfl, rfl⟩⟩ := h
  · simp only [key, String.append_assoc]
  · simp only [key, String.append_assoc]

theorem toList_append_colon (x y : String) :
    (x ++ ":" ++ y).toList = x.toList ++ ':' :: y.toList := by
  rw [String.toList_append, String.toList_append, List.append_assoc]
  rfl

/-- Under one text, where the name of one connector is what the other's begins with. -/
theorem eq_or_overlap_of_append {rest : List Char}
    (hname : connector'.toList = connector.toList ++ rest)
    (hid : ':' :: id.toList = rest ++ ':' :: id'.toList) :
    (connector = connector' ∧ id = id') ∨ Overlap connector id connector' id' := by
  cases rest with
  | nil =>
    rw [List.append_nil] at hname
    exact .inl ⟨String.toList_inj.mp hname.symm, String.toList_inj.mp (List.cons.inj hid).2⟩
  | cons c between =>
    obtain ⟨rfl, hrest⟩ := List.cons.inj hid
    refine .inr ⟨String.ofList between, .inl ⟨String.toList_inj.mp ?_, String.toList_inj.mp ?_⟩⟩
    · rw [hname, toList_append_colon, String.toList_ofList]
    · rw [hrest, toList_append_colon, String.toList_ofList]
      rfl

/-- **Two datasources have the same key exactly if they are the same or their names overlap.** -/
theorem key_eq_key_iff : key connector id = key connector' id' ↔
    (connector = connector' ∧ id = id') ∨ Overlap connector id connector' id' := by
  constructor
  · intro h
    have hchars := congrArg String.toList h
    rw [key, key, toList_append_colon, toList_append_colon] at hchars
    rcases List.append_eq_append_iff.mp hchars with ⟨rest, hname, hid⟩ | ⟨rest, hname, hid⟩
    · exact eq_or_overlap_of_append hname hid
    · rcases eq_or_overlap_of_append hname hid with ⟨hname, hid⟩ | hoverlap
      · exact .inl ⟨hname.symm, hid.symm⟩
      · exact .inr hoverlap.symm
  · rintro (⟨rfl, rfl⟩ | hoverlap)
    · rfl
    · exact hoverlap.key_eq

/-- Names of connectors without a colon do not overlap. -/
theorem not_overlap_of_plain (h : ':' ∉ connector.toList) (h' : ':' ∉ connector'.toList) :
    ¬Overlap connector id connector' id' := by
  rintro ⟨between, ⟨rfl, -⟩ | ⟨rfl, -⟩⟩
  · exact h' (by simp)
  · exact h (by simp)

end Pool

/-! ### What a call leaves alone -/

namespace Access

variable {σ : Type} (a : Access σ) {s t : State σ} {connector id other otherId : String}

/-- One call through the pool, for a datasource of a connector by their names. -/
inductive StepAt (connector id : String) : State σ → State σ → Prop
  | connect {c : Connector} {d : Datasource} (hname : c.name = connector) (hid : d.id = some id)
    (s : State σ) : StepAt connector id s ((a.connect c d).run s).2
  | revalidate {c : Connector} {d : Datasource} (hname : c.name = connector)
    (hid : d.id = some id) (s : State σ) : StepAt connector id s ((a.revalidate c d).run s).2
  | invalidate (s : State σ) : StepAt connector id s ((Access.invalidate connector id).run s).2

variable {a}

/-- **A call leaves the entries under all other keys alone**, however it ends. -/
theorem StepAt.find?_of_ne (h : a.StepAt connector id s t) {key : String}
    (hkey : key ≠ Pool.key connector id) : t.pool.find? key = s.pool.find? key := by
  cases h with
  | connect hname hid s =>
    refine (a.connect_ends rfl).find?_of_ne ?_
    rw [hid, Option.map_some, hname]
    exact fun heq => hkey (Option.some.inj heq).symm
  | revalidate hname hid s =>
    refine (a.revalidate_ends rfl).find?_of_ne ?_
    rw [hid, Option.map_some, hname]
    exact fun heq => hkey (Option.some.inj heq).symm
  | invalidate s => exact Pool.find?_drop_of_ne s.pool hkey

/-- However a connection through the pool ends, the pool still has an entry under the key. -/
theorem PooledEnds.exists_entry {key : String} {e : Pool.Entry} {always : Bool}
    {result : Except Halt Connected} (he : s.pool.find? key = some e)
    (h : a.PooledEnds key e always s result t) : ∃ e', t.pool.find? key = some e' := by
  cases h with
  | kept honce h => exact ⟨e, h.pool ▸ he⟩
  | putBack halways h => exact ⟨_, Pool.find?_replace_self (h.pool ▸ he) _⟩
  | renewed h => exact ⟨_, Pool.find?_replace_self (h.pool ▸ he) _⟩
  | halted h => exact ⟨e, h.pool ▸ he⟩

/-- A valid datasource with an id has an entry after it was connected to, with success or
without. -/
theorem Ends.exists_entry {c : Connector} {d : Datasource} {always : Bool}
    {result : Except Halt Connected} (hvalid : c.validate d = .ok ())
    (h : a.Ends c d (some id) always s result t) :
    ∃ e, t.pool.find? (Pool.key c.name id) = some e := by
  cases h with
  | invalid hinvalid =>
    rw [hvalid] at hinvalid
    cases hinvalid
  | transient _ hid => cases hid
  | pooled _ hid he h =>
    cases hid
    exact PooledEnds.exists_entry (s := { s with pool := _ }) he h

variable (a)

/-- A datasource of any name may have an entry. -/
theorem exists_reachable_entry (outside : σ) (connector id : String) :
    ∃ s e, a.Reachable s ∧ s.pool.find? (Pool.key connector id) = some e := by
  let c : Connector := { anyone with name := connector }
  let d : Datasource := { id := some id }
  have hvalid : c.validate d = .ok () := rfl
  obtain ⟨e, he⟩ := (a.connect_ends (s := { outside }) (c := c) (d := d) rfl).exists_entry hvalid
  exact ⟨_, e, .step (.start outside) (.connect c d _), he⟩

/-- **The pool keeps datasources apart exactly as far as their names do not overlap.** Whatever
has happened, connecting to a datasource, revalidating or invalidating it leaves what the pool
has for another one as it is, exactly if the names of the two do not overlap. -/
theorem isolated_iff (outside : σ) (hne : (other, otherId) ≠ (connector, id)) :
    (∀ s t, a.Reachable s → a.StepAt connector id s t →
        t.pool.find? (Pool.key other otherId) = s.pool.find? (Pool.key other otherId)) ↔
      ¬Pool.Overlap other otherId connector id := by
  constructor
  · intro hisolated hoverlap
    obtain ⟨s, e, hs, he⟩ := a.exists_reachable_entry outside other otherId
    have hkept := hisolated s _ hs (.invalidate s)
    -- invalidating the one takes the entry of the other out
    have hgone : (s.pool.drop (Pool.key connector id)).find? (Pool.key other otherId) =
        s.pool.find? (Pool.key other otherId) := hkept
    rw [hoverlap.key_eq, Pool.find?_drop_self, ← hoverlap.key_eq, he] at hgone
    cases hgone
  · intro hapart s t _ hstep
    refine hstep.find?_of_ne fun hkey => ?_
    rcases Pool.key_eq_key_iff.mp hkey with ⟨rfl, rfl⟩ | hoverlap
    · exact hne rfl
    · exact hapart hoverlap

/-- Colons in ids alone mix nothing up. -/
theorem isolated_iff_plain : ("anyone", "a:b") ≠ ("anyone", "b") ∧
    ∀ s t, issuing.Reachable s → issuing.StepAt "anyone" "b" s t →
      t.pool.find? (Pool.key "anyone" "a:b") = s.pool.find? (Pool.key "anyone" "a:b") := by
  have hne : ("anyone", "a:b") ≠ ("anyone", "b") := by decide
  have hapart : ¬Pool.Overlap "anyone" "a:b" "anyone" "b" :=
    Pool.not_overlap_of_plain (by decide) (by decide)
  exact ⟨hne, (isolated_iff issuing () hne).mpr hapart⟩

/-- A colon in the name of a connector does: what is connected to for `a`, under the id `b:c`,
takes the place of what `a:b` has under the id `c`. -/
theorem connect_displaces : ("a:b", "c") ≠ ("a", "b:c") ∧ ∃ s t,
    issuing.Reachable s ∧ issuing.StepAt "a" "b:c" s t ∧
    s.pool.find? (Pool.key "a:b" "c") =
      some ⟨some (.bearer ⟨"one"⟩), 1, some (.bearer ⟨"one"⟩)⟩ ∧
    t.pool.find? (Pool.key "a:b" "c") =
      some ⟨some (.bearer ⟨"two"⟩), 2, some (.bearer ⟨"two"⟩)⟩ := by
  let one : Datasource := { id := some "c", credential := some (.bearer ⟨"one"⟩) }
  let two : Datasource := { id := some "b:c", credential := some (.bearer ⟨"two"⟩) }
  let s := ((issuing.connect { anyone with name := "a:b" } one).run { outside := () }).2
  have hs : issuing.Reachable s := .step (.start ()) (.connect _ one _)
  have hstep : issuing.StepAt "a" "b:c" s
      ((issuing.connect { anyone with name := "a" } two).run s).2 :=
    StepAt.connect (c := { anyone with name := "a" }) (d := two) rfl rfl s
  exact ⟨by decide, _, _, hs, hstep, rfl, rfl⟩

end Access

end Relay
