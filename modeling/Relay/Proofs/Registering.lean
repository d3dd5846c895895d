/-
# Registered connectors

A connector is entered under its trimmed name, and only if the name is not blank and not taken.
So whatever has been registered, in whatever order and with whatever refusals in between, a
connector is found under its trimmed name and under no other. Its own name need not be that
one: it may have blanks around it. Of several that are offered under one name the first is
entered, and each of the others is refused and leaves the registry as it was.

Key definitions: `Registry.Filled`, `Registry.offer`, `Registry.offerAll`, `Registry.firstOf?`,
`Registry.KeepsFirst`, `Registry.Answers`.
Key theorems: `register_eq_ok_iff`, `mem_names_iff`, `Filled.trim_name`, `offer_cases`,
`find?_offerAll`, `offers_keep_first`.
-/
import Relay.Registry
import Relay.Proofs.Ordering

namespace Relay.Registry

variable {r r' : Registry} {c : Connector} {name : String}

/-- **A connector is entered under its trimmed name**, if that is not blank and not taken. -/
theorem register_eq_ok_iff : r.register c = .ok r' ↔ Text.trim c.name ≠ "" ∧
    r.find? (Text.trim c.name) = none ∧ r' = ⟨r.connectors.insert (Text.trim c.name) c⟩ := by
  have hcontains : r.connectors.contains (Text.trim c.name) = true ↔
      r.find? (Text.trim c.name) ≠ none := by
    rw [Table.contains, find?, Option.isSome_iff_ne_none]
  unfold register
  dsimp only
  by_cases hblank : Text.trim c.name = ""
  · simp [hblank]
  · rw [if_neg (by simpa using hblank)]
    by_cases htaken : r.find? (Text.trim c.name) = none
    · rw [if_neg (by rw [hcontains]; exact not_not_intro htaken)]
      exact ⟨fun h => ⟨hblank, htaken, (Except.ok.inj h).symm⟩, fun h => by rw [h.2.2]⟩
    · rw [if_pos (hcontains.mpr htaken)]
      exact ⟨fun h => (nomatch h), fun h => absurd h.2.1 htaken⟩

theorem require_eq_ok_iff : r.require name = .ok c ↔ r.find? name = some c := by
  unfold require
  cases r.find? name with
  | none => simp
  | some found => simp

/-- **The names are those that a connector is found under.** -/
theorem mem_names_iff : name ∈ r.names ↔ ∃ c, r.require name = .ok c := by
  rw [names, Table.mem_keys_iff]
  simp only [require_eq_ok_iff]
  rfl

/-- A registry that connectors were registered in, one after another. -/
inductive Filled : Registry → Prop
  | empty : Filled {}
  | register {r r' : Registry} {c : Connector} (hr : Filled r) (h : r.register c = .ok r') :
    Filled r'

/-- One connector, under its trimmed name. -/
theorem filled_singleton (htrim : Text.trim c.name = name) (hname : name ≠ "") :
    Filled ⟨[(name, c)]⟩ := by
  subst htrim
  exact .register .empty (register_eq_ok_iff.mpr ⟨hname, rfl, rfl⟩)

/-- **Whatever was registered, a connector is found under its trimmed name only.** -/
theorem Filled.trim_name (hr : r.Filled) (hc : r.require name = .ok c) :
    Text.trim c.name = name := by
  rw [require_eq_ok_iff] at hc
  induction hr with
  | empty => cases hc
  | @register r r' c' hr h ih =>
    obtain ⟨-, -, rfl⟩ := register_eq_ok_iff.mp h
    by_cases hname : name = Text.trim c'.name
    · rw [hname, find?, Table.find?_insert_self] at hc
      cases hc
      exact hname.symm
    · rw [find?, Table.find?_insert_of_ne _ _ hname] at hc
      exact ih hc

/-! ### Offers one after another -/

/-- Offers a connector: the answer, and the registry behind it. A registry that refuses a
connector stays as it is. -/
def offer (r : Registry) (c : Connector) : Except Failure Unit × Registry :=
  match r.register c with
  | .ok r' => (.ok (), r')
  | .error f => (.error f, r)

/-- The registry behind offers that were made one after another. -/
def offerAll (r : Registry) (offers : List Connector) : Registry :=
  offers.foldl (fun r c => (r.offer c).2) r

/-- The first connector that was offered under a name. Nothing is offered under the blank one. -/
def firstOf? (offers : List Connector) (name : String) : Option Connector :=
  offers.find? fun c => name ≠ "" ∧ Text.trim c.name = name

variable {offers : List Connector}

theorem offer_of_blank (hblank : Text.trim c.name = "") :
    r.offer c = (.error (.configuration "plugin name is blank"), r) := by
  unfold offer register
  dsimp only
  rw [if_pos (beq_iff_eq.mpr hblank)]

theorem offer_of_taken {old : Connector} (hname : Text.trim c.name ≠ "")
    (hold : r.find? (Text.trim c.name) = some old) :
    r.offer c =
      (.error (.configuration s!"plugin `{Text.trim c.name}` is already registered"), r) := by
  have htaken : r.connectors.contains (Text.trim c.name) = true := by
    rw [Table.contains, show r.connectors.find? _ = _ from hold, Option.isSome_some]
  unfold offer register
  dsimp only
  rw [if_neg (by simpa using hname), if_pos htaken]

theorem offer_of_free (hname : Text.trim c.name ≠ "") (hfree : r.find? (Text.trim c.name) = none) :
    r.offer c = (.ok (), ⟨r.connectors.insert (Text.trim c.name) c⟩) := by
  unfold offer
  rw [register_eq_ok_iff.mpr ⟨hname, hfree, rfl⟩]

/-- **What an offer does.** A connector without a name or with one that is taken changes nothing,
and any other is entered under its name. -/
theorem offer_cases (r : Registry) (c : Connector) :
    (Text.trim c.name = "" ∧ (r.offer c).2 = r) ∨
    (∃ old, r.find? (Text.trim c.name) = some old ∧ (r.offer c).2 = r) ∨
    (Text.trim c.name ≠ "" ∧ r.find? (Text.trim c.name) = none ∧
      (r.offer c).2 = ⟨r.connectors.insert (Text.trim c.name) c⟩) := by
  by_cases hblank : Text.trim c.name = ""
  · exact .inl ⟨hblank, by rw [offer_of_blank hblank]⟩
  · cases hfound : r.find? (Text.trim c.name) with
    | some old => exact .inr (.inl ⟨old, rfl, by rw [offer_of_taken hblank hfound]⟩)
    | none => exact .inr (.inr ⟨hblank, rfl, by rw [offer_of_free hblank hfound]⟩)

theorem firstOf?_eq_none_iff : firstOf? offers name = none ↔
    name = "" ∨ ∀ c ∈ offers, Text.trim c.name ≠ name := by
  unfold firstOf?
  rw [List.find?_eq_none]
  by_cases hname : name = ""
  · simp [hname]
  · simp [hname]

theorem firstOf?_singleton_self (hname : Text.trim c.name ≠ "") :
    firstOf? [c] (Text.trim c.name) = some c := by
  simp [firstOf?, hname]

theorem firstOf?_singleton_of_ne (h : name ≠ Text.trim c.name) : firstOf? [c] name = none := by
  refine firstOf?_eq_none_iff.mpr (.inr fun o ho => ?_)
  rw [List.mem_singleton.mp ho]
  exact Ne.symm h

/-- **One offer.** What is found under a name stays; where nothing is, the connector will be found
if it is offered under this name. -/
theorem find?_offer (r : Registry) (c : Connector) (name : String) :
    (r.offer c).2.find? name = (r.find? name).or (firstOf? [c] name) := by
  rcases r.offer_cases c with ⟨hblank, hsame⟩ | ⟨old, hold, hsame⟩ | ⟨hnamed, hfree, hentered⟩
  · have hnone : firstOf? [c] name = none := by
      by_cases hname : name = ""
      · exact firstOf?_eq_none_iff.mpr (.inl hname)
      · exact firstOf?_singleton_of_ne (hblank ▸ hname)
    rw [hsame, hnone, Option.or_none]
  · rw [hsame]
    by_cases hname : name = Text.trim c.name
    · rw [hname, hold, Option.some_or]
    · rw [firstOf?_singleton_of_ne hname, Option.or_none]
  · rw [hentered]
    by_cases hname : name = Text.trim c.name
    · rw [hname, hfree, firstOf?_singleton_self hnamed, Option.none_or]
      exact Table.find?_insert_self _ _ _
    · rw [firstOf?_singleton_of_ne hname, Option.or_none]
      exact Table.find?_insert_of_ne _ _ hname

/-- **Any number of offers.** Under a name stands what stood there before, and else the first
connector that was offered under it. -/
theorem find?_offerAll (offers : List Connector) (r : Registry) (name : String) :
    (r.offerAll offers).find? name = (r.find? name).or (firstOf? offers name) := by
  -- Of any registry at the start, since each offer may have changed it before the next.
  induction offers generalizing r with
  | nil => exact Option.or_none.symm
  | cons c offers ih =>
    have hsplit : firstOf? (c :: offers) name = (firstOf? [c] name).or (firstOf? offers name) := by
      rw [← List.singleton_append, firstOf?, List.find?_append, firstOf?, firstOf?]
    calc (r.offerAll (c :: offers)).find? name
        = ((r.offer c).2.find? name).or (firstOf? offers name) := ih (r.offer c).2
      _ = (r.find? name).or (firstOf? (c :: offers) name) := by
        rw [find?_offer, Option.or_assoc, hsplit]

theorem ascending_offer (h : r.connectors.Ascending) (c : Connector) :
    (r.offer c).2.connectors.Ascending := by
  rcases r.offer_cases c with ⟨-, hsame⟩ | ⟨-, -, hsame⟩ | ⟨-, -, hentered⟩
  · rwa [hsame]
  · rwa [hsame]
  · rw [hentered]
    exact Table.ascending_insert h _ _

theorem ascending_offerAll (offers : List Connector) (h : r.connectors.Ascending) :
    (r.offerAll offers).connectors.Ascending := by
  induction offers generalizing r with
  | nil => exact h
  | cons c offers ih => exact ih (ascending_offer h c)

/-- The registry has under each name the first connector that was offered under it, and under no
other text anything. -/
structure KeepsFirst (r : Registry) (offers : List Connector) : Prop where
  ascending : r.names.Pairwise (· < ·)
  names : ∀ name, name ∈ r.names ↔ name ≠ "" ∧ ∃ c ∈ offers, Text.trim c.name = name
  first : ∀ name ∈ r.names, ∃ c, r.find? name = some c ∧
    offers.find? (fun c => Text.trim c.name = name) = some c
  others : ∀ name, name ∉ r.names → r.find? name = none
  contains : ∀ name, r.contains name = true ↔ name ∈ r.names
  size : r.size = r.names.length

/-- The answer to a connector that is offered behind others: it is refused if it has no name or
if one of them has its name, and then the registry stays as it is. -/
structure Answers (r : Registry) (offers : List Connector) (c : Connector) : Prop where
  blank : Text.trim c.name = "" → r.offer c = (.error (.configuration "plugin name is blank"), r)
  taken : Text.trim c.name ≠ "" → (∃ o ∈ offers, Text.trim o.name = Text.trim c.name) →
    r.offer c =
      (.error (.configuration s!"plugin `{Text.trim c.name}` is already registered"), r)
  free : Text.trim c.name ≠ "" → (∀ o ∈ offers, Text.trim o.name ≠ Text.trim c.name) →
    (r.offer c).1 = .ok ()

/-- Beginning with nothing, only what was offered is found. -/
theorem find?_offerAll_nothing (offers : List Connector) (name : String) :
    (({} : Registry).offerAll offers).find? name = firstOf? offers name := by
  rw [find?_offerAll]
  rfl

theorem keepsFirst_offerAll (offers : List Connector) :
    (({} : Registry).offerAll offers).KeepsFirst offers := by
  have hnone (name : String) : name ∉ (({} : Registry).offerAll offers).names ↔
      (({} : Registry).offerAll offers).find? name = none := by
    rw [names, Table.mem_keys_iff, not_exists, Option.eq_none_iff_forall_ne_some]
    rfl
  have hlisted (name : String) : name ∈ (({} : Registry).offerAll offers).names ↔
      name ≠ "" ∧ ∃ c ∈ offers, Text.trim c.name = name := by
    rw [← Decidable.not_iff_not, hnone, find?_offerAll_nothing, firstOf?_eq_none_iff,
      Classical.not_and_iff_not_or_not, Classical.not_not]
    simp only [not_exists, not_and, ne_eq]
  refine ⟨ascending_offerAll offers .nil, hlisted, fun name hname => ?_,
    fun name => (hnone name).mp, fun name => ?_, (List.length_map _).symm⟩
  · obtain ⟨c, hc⟩ := (Table.mem_keys_iff _ _).mp hname
    refine ⟨c, hc, ?_⟩
    have hfirst : firstOf? offers name = some c :=
      (find?_offerAll_nothing offers name).symm.trans hc
    simpa [firstOf?, ((hlisted name).mp hname).1] using hfirst
  · rw [contains, Option.isSome_iff_ne_none, ne_eq, ← hnone, Decidable.not_not]

theorem answers_offerAll (offers : List Connector) (c : Connector) :
    (({} : Registry).offerAll offers).Answers offers c where
  blank := offer_of_blank
  taken hname htaken := by
    have hsome : (({} : Registry).offerAll offers).find? (Text.trim c.name) ≠ none := by
      rw [find?_offerAll_nothing, ne_eq, firstOf?_eq_none_iff, not_or]
      obtain ⟨o, ho, hsame⟩ := htaken
      exact ⟨hname, fun hall => hall o ho hsame⟩
    obtain ⟨old, hold⟩ := Option.ne_none_iff_exists'.mp hsome
    exact offer_of_taken hname hold
  free hname hfree := by
    have hnone : (({} : Registry).offerAll offers).find? (Text.trim c.name) = none := by
      rw [find?_offerAll_nothing, firstOf?_eq_none_iff]
      exact .inr hfree
    rw [offer_of_free hname hnone]

/-- **Of each name the first connector is kept.** However connectors are offered one after
another, names that coincide only after trimming and blank ones among them, the registry has
under each name the first, and each later one is refused and changes nothing. -/
theorem offers_keep_first (offers : List Connector) (c : Connector) :
    (({} : Registry).offerAll offers).KeepsFirst offers ∧
      (({} : Registry).offerAll offers).Answers offers c :=
  ⟨keepsFirst_offerAll offers, answers_offerAll offers c⟩

/-- A connector of this name that runs nothing. -/
def idle (name : String) : Connector :=
  { name, invalids := fun _ => [], select := fun _ => .error (.unsupported "no commands") }

/-- Names that coincide only after trimming, and a blank one. -/
def spaced : List Connector := [idle " b ", idle "a", idle "", idle "b"]

/-- Of connectors under one name but for blanks the first is found, and another is refused. -/
theorem offers_keep_first_spaced :
    (({} : Registry).offerAll spaced).names = ["a", "b"] ∧
    (∃ c, (({} : Registry).offerAll spaced).find? "b" = some c ∧ c.name = " b ") ∧
    (({} : Registry).offerAll spaced).offer (idle "b\t") =
      (.error (.configuration "plugin `b` is already registered"),
        ({} : Registry).offerAll spaced) := by
  obtain ⟨hkeeps, hanswers⟩ := offers_keep_first spaced (idle "b\t")
  have hlisted : "b" ∈ (({} : Registry).offerAll spaced).names :=
    (hkeeps.names "b").mpr ⟨by decide, idle " b ", List.mem_cons_self, by decide +kernel⟩
  have hspaced : spaced.find? (fun c => Text.trim c.name = "b") = some (idle " b ") := rfl
  have htrim : Text.trim (idle "b\t").name = "b" := by decide +kernel
  obtain ⟨c, hfound, hfirst⟩ := hkeeps.first "b" hlisted
  refine ⟨by decide +kernel, ⟨c, hfound, ?_⟩, ?_⟩
  · rw [← Option.some.inj (hspaced.symm.trans hfirst)]
    rfl
  · have htaken := hanswers.taken (by decide +kernel)
      ⟨idle " b ", List.mem_cons_self, by decide +kernel⟩
    rwa [htrim] at htaken

end Relay.Registry
